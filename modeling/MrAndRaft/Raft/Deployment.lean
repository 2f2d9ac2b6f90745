import MrAndRaft.Raft.Deployed

/-! Raft on the simulated network, under the harness that crashes and restarts its peers, is the
cluster of peers with its list of RPCs, whose requests share arrays with the logs until they are
encoded. -/

namespace MrAndRaft.Deployed

open Cluster Aliased

variable {n : Nat} {Cmd : Type}

structure Represents (s : Remote.State (Fin n) (Peer n Cmd) (Request Cmd) Reply (Persistent Cmd))
    (t : Aliased n Cmd) : Prop where
  node : ∀ p, Node t p (s.node p)
  stored : s.stored = t.cluster.saved
  votes : Calls .requestVote .requestVote (fun _ => True) s.calls t.cluster.voteCalls
  appends : Calls .appendEntries .appendEntries (fun m => t.shares m = none) s.calls t.calls

section

variable [Inhabited Cmd] {rt : Runtime}
  {s s' : Remote.State (Fin n) (Peer n Cmd) (Request Cmd) Reply (Persistent Cmd)}
  {t t' : Aliased n Cmd} {u : Cluster n Cmd} {e : Event n Cmd} {b : Nat}

theorem represents_init :
    Represents (Remote.State.init (behaviour rt n Cmd)) (Aliased.init fun _ => rt.append 0 1) where
  node _ := ⟨rfl, rfl, rfl, [], .nil, .nil⟩
  stored := rfl
  votes := .empty
  appends := .empty

omit [Inhabited Cmd] in
theorem Represents.update_raft (h : Represents s t) (p : Fin n) :
    t.peer = Function.update t.peer p (s.node p).raft := by
  rw [(h.node p).raft, Function.update_eq_self]

omit [Inhabited Cmd] in
theorem Represents.update_ticker (h : Represents s t) (p : Fin n) :
    t.cluster.ticker = Function.update t.cluster.ticker p (s.node p).ticker := by
  rw [(h.node p).ticker, Function.update_eq_self]

omit [Inhabited Cmd] in
theorem encoded_after {as : List (Remote.Call (Fin n) (Request Cmd) Reply)}
    {cs : List (AppendCall n Cmd)} (hlen : cs.length = t.calls.length)
    (h : Calls .appendEntries .appendEntries (fun m => t.shares m = none) as cs) :
    Calls .appendEntries .appendEntries (fun m => (t.after e b u).shares m = none) as cs :=
  h.imp fun _ hm hok => (shares_after (hlen ▸ hm)).trans hok

omit [Inhabited Cmd] in
theorem Represents.update (h : Represents s t) {p : Fin n} {st : Peer n Cmd}
    (hp : Node (t.after e b u) p st) (hleaves : ∀ q, q ≠ p → Leaves t q (t.after e b u))
    (hmoves : ∀ q, q ≠ p → t.moves u e ≠ some q)
    (hpeer : ∀ q, q ≠ p → u.peer q = t.peer q)
    (hticker : ∀ q, q ≠ p → u.ticker q = t.cluster.ticker q) (q : Fin n) :
    Node (t.after e b u) q (Function.update s.node p st q) := by
  by_cases hq : q = p
  · subst hq
    rwa [Function.update_self]
  · rw [Function.update_of_ne hq]
    exact (h.node q).after (hmoves q hq) (hleaves q hq) ((h.node q).raft.trans (hpeer q hq).symm)
      ((h.node q).ticker.trans (hticker q hq).symm) rfl rfl

omit [Inhabited Cmd] in
theorem Represents.quiet (h : Represents s t) {p : Fin n} {st : Peer n Cmd}
    (hin : t.inPlace e = none) (hmoves : t.moves u e = none)
    (hcs : ∀ k c, t.calls[k]? = some c → (t.shares k).isSome → u.appendCalls[k]? = some c)
    (hpeer : u.peer = Function.update t.peer p st.raft)
    (hticker : u.ticker = Function.update t.cluster.ticker p st.ticker)
    (hcap : st.cap = (s.node p).cap) (hunsent : st.unsent = (s.node p).unsent) (q : Fin n) :
    Node (t.after e b u) q (Function.update s.node p st q) := by
  have hnone (q : Fin n) : t.moves u e ≠ some q := by simp [hmoves]
  refine h.update ?_ (fun _ _ => leaves_of hin hcs) (fun q _ => hnone q) (fun q hq => ?_)
    (fun q hq => ?_) q
  · exact (h.node p).after (hnone p) (leaves_of hin hcs) (by simp [hpeer]) (by simp [hticker]) hcap
      hunsent
  · rw [hpeer, Function.update_of_ne hq]
  · rw [hticker, Function.update_of_ne hq]

omit [Inhabited Cmd] in
theorem Represents.moved (h : Represents s t) {p : Fin n} {rf : Raft Cmd}
    (hin : t.inPlace e = none) (hmoves : t.moves u e = some p)
    (hcs : ∀ k c, t.calls[k]? = some c → (t.shares k).isSome → u.appendCalls[k]? = some c)
    (hpeer : u.peer = Function.update t.peer p rf) (hticker : u.ticker = t.cluster.ticker)
    (hb : rf.log.length ≤ b) (q : Fin n) :
    Node (t.after e b u) q (Function.update s.node p { (s.node p).move b with raft := rf } q) := by
  refine h.update ?_ (fun _ _ => leaves_of hin hcs) (fun q hq heq => ?_) (fun q hq => ?_)
    (fun q _ => by rw [hticker]) q
  · have hp := (h.node p).move hmoves (leaves_of hin hcs) (by simpa [hpeer] using hb)
    simpa [hpeer, hticker, ← (h.node p).ticker, Peer.move] using hp
  · exact hq (Option.some.inj (heq.symm.trans hmoves))
  · rw [hpeer, Function.update_of_ne hq]

omit [Inhabited Cmd] in
theorem Represents.appends_after (h : Represents s t) (hcs : ∀ m c, t.calls[m]? = some c →
    t.shares m = none → (t.after e b u).calls[m]? = some c) :
    Calls .appendEntries .appendEntries (fun m => (t.after e b u).shares m = none) s.calls
      (t.after e b u).calls := by
  refine (encoded_after rfl h.appends).right fun m c hc hok => ?_
  exact hcs m c hc ((shares_after (List.getElem?_eq_some_iff.mp hc).1).symm.trans hok)

omit [Inhabited Cmd] in
theorem getElem?_set_encoded {m : Nat} {c' : AppendCall n Cmd} (hm : t.shares m = none) (k : Nat)
    (c : AppendCall n Cmd) (hc : t.calls[k]? = some c) (hk : (t.shares k).isSome) :
    (t.calls.set m c')[k]? = some c := by
  have hne : m ≠ k := by
    rintro rfl
    simp [hm] at hk
  rw [List.getElem?_set_ne hne, hc]

omit [Inhabited Cmd] in
theorem Represents.build (h : Represents s t) {p : Fin n} {rf : Raft Cmd} {tick : Ticker}
    {requests : List (Fin n × AppendEntriesArgs Cmd)} {sentTerm : Nat}
    (hin : t.inPlace e = none) (hmoves : t.moves u e = none)
    (hnew : u.appendCalls = t.calls ++ requests.map fun (q, args) =>
      { src := p, dst := q, sentTerm, args })
    (hpeer : u.peer = Function.update t.peer p rf)
    (hticker : u.ticker = Function.update t.cluster.ticker p tick) (q : Fin n) :
    Node (t.after e b u) q
      (Function.update s.node p { (s.node p).build requests with raft := rf, ticker := tick } q) := by
  have hnone (q : Fin n) : t.moves u e ≠ some q := by simp [hmoves]
  have hcs (k : Nat) (c : AppendCall n Cmd) (hc : t.calls[k]? = some c) :
      u.appendCalls[k]? = some c := by
    rw [hnew, List.getElem?_append_left (List.getElem?_eq_some_iff.mp hc).1, hc]
  refine h.update ?_ (fun _ _ => leaves_of hin fun k c hc _ => hcs k c hc) (fun q _ => hnone q)
    (fun q hq => ?_) (fun q hq => ?_) q
  · have hp := (h.node p).build (b := b) (hnone p) hin hnew
    simpa [hpeer, hticker] using hp
  · rw [hpeer, Function.update_of_ne hq]
  · rw [hticker, Function.update_of_ne hq]

theorem Represents.persist (h : Represents s t) {p : Fin n} (hasleep : (s.node p).ticker = .asleep) :
    ∃ e t', t.step e = .ok t' ∧
      Represents ((s.setNode p { s.node p with ticker := .waiting (s.node p).raft.state }).save p
        (some (s.node p).raft.persist)) t' := by
  have hn := h.node p
  have hstep : t.cluster.step (.persist p) = .ok { t.cluster with
      ticker := Function.update t.cluster.ticker p (.waiting (t.cluster.peer p).state)
      saved := Function.update t.cluster.saved p (some (t.cluster.peer p).persist) } := by
    simp only [Cluster.step, if_pos (hn.ticker ▸ hasleep)]
  refine ⟨_, _, step_after rfl hstep 0, h.quiet rfl rfl (fun _ _ hc _ => hc) (h.update_raft p) ?_ rfl
    rfl, ?_, h.votes, h.appends_after fun _ _ hc _ => hc⟩
  · rw [hn.raft]
    rfl
  · rw [hn.raft]
    simp [Remote.State.save, Remote.State.setNode, h.stored, Aliased.after, Aliased.peer]

theorem Represents.becomeCandidate (h : Represents s t) {p : Fin n} {rf : Raft Cmd}
    {args : RequestVoteArgs}
    (hwait : (s.node p).ticker = .waiting .follower ∨ (s.node p).ticker = .waiting .candidate)
    (hrf : (s.node p).raft.becomeCandidate p = some (rf, args)) :
    ∃ e t', t.step e = .ok t' ∧
      Represents ((s.setNode p { s.node p with raft := rf, ticker := .asleep }).send p
        ((Raft.others p).map (·, .requestVote args))) t' := by
  have hn := h.node p
  rw [hn.raft] at hrf
  rw [hn.ticker] at hwait
  have hstep : t.cluster.step (.becomeCandidate p) =
      .ok (((t.cluster.setPeer p rf).setTicker p .asleep).callVotes p args) := by
    simp only [Cluster.step, if_pos hwait, show (t.cluster.peer p).becomeCandidate p = _ from hrf]
    rfl
  refine ⟨_, _, step_after rfl hstep 0, h.quiet rfl rfl (fun k c hc _ => hc) rfl rfl rfl rfl,
    h.stored, ?_, ?_⟩
  · have hsend := h.votes.send p args.term ((Raft.others p).map (·, args))
    simpa [Remote.State.send, Remote.State.setNode, Aliased.after, callVotes, setTicker, setPeer,
      Function.comp_def] using hsend
  · refine Calls.send_other (h.appends_after fun m c hc _ => ?_) fun a ha args' hreq => ?_
    · exact hc
    · simp only [List.map_map, List.mem_map, Function.comp_apply] at ha
      obtain ⟨q, -, rfl⟩ := ha
      cases hreq

theorem Represents.sendHeartBeats (h : Represents s t) {p : Fin n}
    {requests : List (Fin n × AppendEntriesArgs Cmd)}
    (hwait : (s.node p).ticker = .waiting .leader)
    (hreqs : (s.node p).raft.sendHeartBeats p = some requests) :
    ∃ e t', t.step e = .ok t' ∧
      Represents (s.setNode p { (s.node p).build requests with ticker := .asleep }) t' := by
  have hn := h.node p
  rw [hn.raft] at hreqs
  have hstep : t.cluster.step (.sendHeartBeats p) =
      .ok ((t.cluster.setTicker p .asleep).callAppends p requests) := by
    simp only [Cluster.step, if_pos (hn.ticker ▸ hwait),
      show (t.cluster.peer p).sendHeartBeats p = _ from hreqs]
    rfl
  refine ⟨_, _, step_after rfl hstep 0, h.build rfl rfl rfl (h.update_raft p) rfl, h.stored, h.votes,
    h.appends_after fun m c hc _ => ?_⟩
  rw [calls_after rfl]
  exact (List.getElem?_append_left (List.getElem?_eq_some_iff.mp hc).1).trans hc

theorem Represents.start (h : Represents s t) {p : Fin n} {command : Cmd} {rf : Raft Cmd}
    {out : Int × Nat × Bool} (hrf : (s.node p).raft.start p command = some (rf, out)) :
    ∃ e t', t.step e = .ok t' ∧
      Represents (s.setNode p { (if (s.node p).raft.state = .leader then
        (s.node p).append rt ⟨(s.node p).raft.currentTerm, command⟩ else s.node p) with
          raft := rf }) t' := by
  have hn := h.node p
  rw [hn.raft] at hrf
  have hstep : t.cluster.step (.start p command) = .ok (t.cluster.setPeer p rf) := by
    simp only [Cluster.step, show (t.cluster.peer p).start p command = _ from hrf, orPanic]
  have hcs : (t.cluster.setPeer p rf).appendCalls = t.calls := rfl
  have hpeer (q : Fin n) (hq : q ≠ p) : (t.cluster.setPeer p rf).peer q = t.peer q :=
    Function.update_of_ne hq _ _
  have hwrites : ∀ w ∈ t.inPlace (.start p command), w.1 = p := by
    intro w hw
    simp only [inPlace, Option.mem_def, Option.ite_none_right_eq_some, Option.some.injEq] at hw
    rw [← hw.2]
  -- the requests of the other peers are in other arrays
  have hleaves {b : Nat} (q : Fin n) (hq : q ≠ p) :
      Leaves t q (t.after (.start p command) b (t.cluster.setPeer p rf)) := by
    intro k c hc hsrc _ _ _
    refine getElem?_after_of_not hc fun w hw hs => hq ?_
    rw [← hsrc, hs.1, hwrites w hw]
  have happends {b : Nat} : Calls .appendEntries .appendEntries
      (fun m => (t.after (.start p command) b (t.cluster.setPeer p rf)).shares m = none) s.calls
      (t.after (.start p command) b (t.cluster.setPeer p rf)).calls := by
    refine h.appends_after fun m c hc hm => getElem?_after_of_not hc fun w hw hs => ?_
    simp [Shared, hm] at hs
  by_cases hlead : (t.peer p).state = .leader
  · rw [hn.raft, if_pos hlead, Peer.append, hn.raft, hn.cap]
    by_cases hroom : (t.peer p).log.length < t.cap p
    · rw [if_pos hroom]
      have hmoves : t.moves (t.cluster.setPeer p rf) (.start p command) = none := by
        simp [moves, hroom]
      have hin : t.inPlace (.start p command) = some (p, ⟨(t.peer p).currentTerm, command⟩) := by
        simp [inPlace, hlead, hroom]
      have hp := hn.write (b := 0) hin (by simp [hmoves]) hcs
      refine ⟨_, _, step_after rfl hstep 0, h.update ?_ hleaves (by simp [hmoves]) hpeer
        fun _ _ => rfl, h.stored, h.votes, happends⟩
      simpa [setPeer, ← hn.ticker, Peer.write] using hp
    · rw [if_neg hroom]
      have hmoves : t.moves (t.cluster.setPeer p rf) (.start p command) = some p := by
        simp [moves, hlead, Nat.not_lt.mp hroom]
      have hlen : rf.log.length = (t.peer p).log.length + 1 := by
        cases Raft.start_spec hrf with
        | refused hnot => exact absurd hlead hnot
        | appended => simp
      have hb := rt.le_append (t.cap p) ((t.peer p).log.length + 1)
      exact ⟨_, _, step_after rfl hstep _, h.moved (by simp [inPlace, Nat.not_lt.mp hroom]) hmoves
        (fun _ _ hc _ => hc) rfl rfl (hlen.trans_le hb), h.stored, h.votes, happends⟩
  · rw [hn.raft, if_neg hlead]
    have hmoves : t.moves (t.cluster.setPeer p rf) (.start p command) = none := by
      simp [moves, hlead]
    exact ⟨_, _, step_after rfl hstep 0, h.quiet (by simp [inPlace, hlead]) hmoves
      (fun _ _ hc _ => hc) rfl (h.update_ticker p) rfl rfl, h.stored, h.votes, happends⟩

theorem Represents.encode (h : Represents s t) {p : Fin n} {i : Nat} {w : Unsent n Cmd}
    (hw : (s.node p).unsent[i]? = some w) :
    ∃ e t', t.step e = .ok t' ∧
      Represents ((s.setNode p { s.node p with unsent := (s.node p).unsent.eraseIdx i }).send p
        [(w.server, .appendEntries w.args)]) t' := by
  obtain ⟨ks, hnodup, hall⟩ := (h.node p).unsent
  obtain ⟨k, hk, hwait⟩ := Correspondence.exists_of_forall₂ hall hw
  obtain ⟨sentTerm, hc⟩ := hwait.call
  obtain ⟨a, -, ha, -⟩ := hwait.shares
  have hstep : t.step (.encode k) = .ok { t with shares := Function.update t.shares k none } := by
    simp [Aliased.step, hc, ha]
  have hother {q : Fin n} {w' : Unsent n Cmd} {k' : Nat} (hk' : k' ≠ k) (hw' : Waiting t q w' k') :
      Waiting { t with shares := Function.update t.shares k none } q w' k' := by
    obtain ⟨hcall, a', hle', ha', hlog'⟩ := hw'
    exact ⟨hcall, a', hle', (Function.update_of_ne hk' _ _).trans ha', hlog'⟩
  refine ⟨_, _, hstep, fun q => ?_, h.stored, ?_, ?_⟩
  · have hq := h.node q
    by_cases hpq : q = p
    · subst hpq
      simp only [Remote.State.send, Remote.State.setNode, Function.update_self]
      refine ⟨hq.raft, hq.ticker, hq.cap, ks.eraseIdx i, hnodup.sublist (List.eraseIdx_sublist _ _), ?_⟩
      exact (Correspondence.forall₂_eraseIdx hall hnodup hk).imp fun w' k' hw' => hother hw'.1 hw'.2
    · simp only [Remote.State.send, Remote.State.setNode, Function.update_of_ne hpq]
      obtain ⟨ks', hnodup', hall'⟩ := hq.unsent
      refine ⟨hq.raft, hq.ticker, hq.cap, ks', hnodup', hall'.imp fun w' k' hw' => hother ?_ hw'⟩
      rintro rfl
      exact hpq (hw'.src_eq hwait)
  · exact h.votes.send_other (by simp)
  · refine (h.appends.link hc (by simp [ha]) ⟨rfl, rfl, rfl, rfl, rfl⟩).imp fun m _ hm => ?_
    rcases hm with hm | rfl
    · by_cases hmk : m = k
      · rw [hmk]
        exact Function.update_self _ _ _
      · exact (Function.update_of_ne hmk _ _).trans hm
    · exact Function.update_self _ _ _

theorem Represents.act (h : Represents s t) {p : Fin n} {a : Act Cmd} {st : Peer n Cmd}
    {d : Option (Persistent Cmd)} {reqs : List (Fin n × Request Cmd)}
    (hact : Deployed.act rt p (s.node p) a = some (st, d, reqs)) :
    ∃ e t', t.step e = .ok t' ∧ Represents (((s.setNode p st).save p d).send p reqs) t' := by
  cases act_spec hact with
  | persist hasleep =>
    rw [Remote.State.send_nil]
    exact h.persist hasleep
  | becomeCandidate hwait hrf => exact h.becomeCandidate hwait hrf
  | sendHeartBeats hwait hreqs =>
    rw [Remote.State.send_nil]
    exact h.sendHeartBeats hwait hreqs
  | start hrf =>
    rw [Remote.State.send_nil]
    exact h.start hrf
  | encode hw => exact h.encode hw

theorem Represents.handle (h : Represents s t) {k : Nat}
    {a : Remote.Call (Fin n) (Request Cmd) Reply} {st : Peer n Cmd} {r : Reply}
    (hk : s.calls[k]? = some a) (hsent : a.stage = .sent)
    (hhandle : Deployed.handle rt (s.node a.dst) a.req = some (st, r)) :
    ∃ e t', t.step e = .ok t' ∧ Represents ((s.setNode a.dst st).setStage k a (.handled r)) t' := by
  cases hreq : a.req with
  | requestVote args =>
    rw [hreq] at hhandle
    obtain ⟨⟨rf, reply⟩, hrf, hhandle⟩ := Option.map_eq_some_iff.mp hhandle
    cases hhandle
    obtain ⟨m, c, hc, hs, -, hset⟩ := h.votes.setStage hk hreq
    have hstage := eq_sent_of_stage (hs.stage.symm.trans hsent)
    cases hreq.symm.trans hs.req
    rw [hs.dst] at hrf ⊢
    have hn := h.node c.dst
    have hstep : t.cluster.step (.requestVote m) =
        .ok ((t.cluster.setPeer c.dst rf).setVoteStage m c (.handled reply)) := by
      simp only [Cluster.step, hc, if_pos hstage,
        show (t.cluster.peer c.dst).requestVote c.args = _ from hn.raft ▸ hrf, orPanic]
    refine ⟨_, _, step_after rfl hstep 0, h.quiet rfl rfl (fun _ _ hc _ => hc) rfl
      (h.update_ticker c.dst) rfl rfl, h.stored, hset _ (.handled reply) rfl, ?_⟩
    refine Calls.setStage_other (h.appends_after ?_) hk (by simp [hreq]) _
    exact fun _ _ hc _ => hc
  | appendEntries args =>
    rw [hreq] at hhandle
    obtain ⟨⟨rf, reply⟩, hrf, hhandle⟩ := Option.map_eq_some_iff.mp hhandle
    cases hhandle
    obtain ⟨m, c, hc, hs, hready, hset⟩ := h.appends.setStage hk hreq
    have hstage := eq_sent_of_stage (hs.stage.symm.trans hsent)
    cases hreq.symm.trans hs.req
    rw [hs.dst] at hrf ⊢
    have hn := h.node c.dst
    rw [hn.raft] at hrf
    have hstep : t.cluster.step (.appendEntries m) =
        .ok ((t.cluster.setPeer c.dst rf).setAppendStage m c (.handled reply)) := by
      simp only [Cluster.step, show t.cluster.appendCalls[m]? = _ from hc, if_pos hstage,
        show (t.cluster.peer c.dst).appendEntries c.args = _ from hrf, orPanic]
    have hmoves : t.moves ((t.cluster.setPeer c.dst rf).setAppendStage m c (.handled reply))
        (.appendEntries m) = if reply.success then some c.dst else none := by
      have hself := List.getElem?_set_self (a := { c with stage := Stage.handled reply })
        (List.getElem?_eq_some_iff.mp hc).1
      simp [moves, setAppendStage, setPeer, show t.cluster.appendCalls = t.calls from rfl, hself,
        Stage.reply]
    have hvotes := h.votes.setStage_other hk (by simp [hreq]) (.handled (.appendEntries reply))
    have happends := hset _ (.handled reply) rfl
    have hsent : t.ready (.appendEntries m) = true := by simp [ready, hready]
    cases hsucc : reply.success with
    | false =>
      rw [hsucc] at hmoves
      simp only [Bool.false_eq_true, if_false] at hmoves ⊢
      exact ⟨_, _, step_after hsent hstep 0, h.quiet rfl hmoves (getElem?_set_encoded hready) rfl
        (h.update_ticker c.dst) rfl rfl, h.stored, hvotes, encoded_after List.length_set happends⟩
    | true =>
      rw [hsucc, if_pos rfl] at hmoves
      simp only [if_true]
      exact ⟨_, _, step_after hsent hstep _, h.moved rfl hmoves (getElem?_set_encoded hready) rfl rfl
        (rt.le_append _ _), h.stored, hvotes, encoded_after List.length_set happends⟩

theorem Represents.release (h : Represents s t) {k : Nat}
    {a : Remote.Call (Fin n) (Request Cmd) Reply} {st : Peer n Cmd} {r : Reply}
    (hk : s.calls[k]? = some a) (hhandled : a.stage = .handled r)
    (hrelease : Deployed.release (s.node a.dst) a.req = some st) :
    ∃ e t', t.step e = .ok t' ∧ Represents ((s.setNode a.dst st).setStage k a (.returned r)) t' := by
  cases hreq : a.req with
  | requestVote args =>
    rw [hreq] at hrelease
    simp only [Deployed.release, Option.ite_none_right_eq_some] at hrelease
    obtain ⟨htakes, hrelease⟩ := hrelease
    cases hrelease
    obtain ⟨m, c, hc, hs, -, hset⟩ := h.votes.setStage hk hreq
    obtain ⟨reply, hstage, rfl⟩ := eq_handled_of_stage (hs.stage.symm.trans hhandled)
    rw [hs.dst] at htakes ⊢
    have hn := h.node c.dst
    have hstep : t.cluster.step (.receivedVote m) =
        .ok ((t.cluster.setTicker c.dst .asleep).setVoteStage m c (.returned reply)) := by
      simp only [Cluster.step, hc, hstage, if_pos (hn.ticker ▸ htakes)]
    refine ⟨_, _, step_after rfl hstep 0, h.quiet rfl rfl (fun _ _ hc _ => hc) (h.update_raft c.dst) rfl
      rfl rfl, h.stored, hset _ (.returned reply) rfl, ?_⟩
    refine Calls.setStage_other (h.appends_after ?_) hk (by simp [hreq]) _
    exact fun _ _ hc _ => hc
  | appendEntries args =>
    rw [hreq] at hrelease
    simp only [Deployed.release, Option.ite_none_right_eq_some] at hrelease
    obtain ⟨htakes, hrelease⟩ := hrelease
    cases hrelease
    obtain ⟨m, c, hc, hs, hready, hset⟩ := h.appends.setStage hk hreq
    obtain ⟨reply, hstage, rfl⟩ := eq_handled_of_stage (hs.stage.symm.trans hhandled)
    rw [hs.dst] at htakes ⊢
    have hn := h.node c.dst
    have hstep : t.cluster.step (.heartBeat m) =
        .ok ((t.cluster.setTicker c.dst .asleep).setAppendStage m c (.returned reply)) := by
      simp only [Cluster.step, show t.cluster.appendCalls[m]? = _ from hc, hstage,
        if_pos (hn.ticker ▸ htakes)]
    exact ⟨_, _, step_after rfl hstep 0, h.quiet rfl rfl (getElem?_set_encoded hready)
      (h.update_raft c.dst) rfl rfl rfl, h.stored, h.votes.setStage_other hk (by simp [hreq]) _,
      encoded_after List.length_set (hset _ (.returned reply) rfl)⟩

theorem Represents.accept (h : Represents s t) {k : Nat}
    {a : Remote.Call (Fin n) (Request Cmd) Reply} {st : Peer n Cmd} {r : Reply}
    {reqs : List (Fin n × Request Cmd)}
    (hk : s.calls[k]? = some a) (hreturned : a.stage = .returned r) (horphan : a.orphan = false)
    (haccept : Deployed.accept a.src (s.node a.src) a.dst a.req r = some (st, reqs)) :
    ∃ e t', t.step e = .ok t' ∧
      Represents (((s.setNode a.src st).setStage k a (.received r)).send a.src reqs) t' := by
  cases hreq : a.req with
  | requestVote args =>
    rw [hreq] at haccept
    obtain ⟨m, c, hc, hs, -, hset⟩ := h.votes.setStage hk hreq
    obtain ⟨reply, hstage, rfl⟩ := eq_returned_of_stage (hs.stage.symm.trans hreturned)
    have horphan' : c.orphan = false := hs.orphan.symm.trans horphan
    rw [hs.src] at haccept ⊢
    have hn := h.node c.src
    obtain ⟨rf, args', hrf⟩ : ∃ rf args', (t.cluster.peer c.src).sendRequestVote n reply = (rf, args') :=
      ⟨_, _, rfl⟩
    simp only [Deployed.accept, hn.raft, Aliased.peer, hrf] at haccept
    cases haccept
    rw [Remote.State.send_nil]
    have hstep : t.cluster.step (.sendRequestVote m) =
        .ok (((t.cluster.setPeer c.src rf).setVoteStage m c (.received reply)).callAppends c.src
          (broadcast c.src args')) := by
      simp [Cluster.step, hc, hstage, horphan', hrf]
    refine ⟨_, _, step_after rfl hstep 0, ?_, h.stored, hset _ (.received reply) rfl, ?_⟩
    · exact h.build rfl rfl rfl rfl (h.update_ticker c.src)
    · refine Calls.setStage_other (h.appends_after fun m c hc _ => ?_) hk (by simp [hreq]) _
      rw [calls_after rfl]
      exact (List.getElem?_append_left (List.getElem?_eq_some_iff.mp hc).1).trans hc
  | appendEntries args =>
    rw [hreq] at haccept
    obtain ⟨m, c, hc, hs, hready, hset⟩ := h.appends.setStage hk hreq
    obtain ⟨reply, hstage, rfl⟩ := eq_returned_of_stage (hs.stage.symm.trans hreturned)
    obtain ⟨rf, hrf, haccept⟩ := Option.map_eq_some_iff.mp haccept
    cases haccept
    cases hreq.symm.trans hs.req
    have horphan' : c.orphan = false := hs.orphan.symm.trans horphan
    rw [hs.src, hs.dst] at hrf
    rw [hs.src, Remote.State.send_nil]
    have hn := h.node c.src
    have hstep : t.cluster.step (.sendAppendEntries m) =
        .ok ((t.cluster.setPeer c.src rf).setAppendStage m c (.received reply)) := by
      simp [Cluster.step, show t.cluster.appendCalls[m]? = _ from hc, hstage, horphan',
        show (t.cluster.peer c.src).sendAppendEntries n c.dst c.args reply = _ from hn.raft ▸ hrf,
        orPanic]
    exact ⟨_, _, step_after rfl hstep 0, h.quiet rfl rfl (getElem?_set_encoded hready) rfl
      (h.update_ticker c.src) rfl rfl, h.stored, h.votes.setStage_other hk (by simp [hreq]) _,
      encoded_after List.length_set (hset _ (.received reply) rfl)⟩

theorem boot_fits (rt : Runtime) (saved : Option (Persistent Cmd)) :
    (Raft.make saved).log.length ≤ (boot rt saved : Peer n Cmd).cap := by
  cases saved with
  | none => exact rt.le_append 0 1
  | some data => exact rt.le_decode data.log.length

theorem Represents.crash (h : Represents s t) (p : Fin n) :
    ∃ e t', t.step e = .ok t' ∧ Represents (s.crash (behaviour rt n Cmd) p) t' := by
  have hstep : t.cluster.step (.crash p) = .ok {
      peer := Function.update t.cluster.peer p (Raft.make (t.cluster.saved p))
      ticker := Function.update t.cluster.ticker p .asleep
      saved := t.cluster.saved
      voteCalls := t.cluster.voteCalls.map (Call.crash p)
      appendCalls := t.cluster.appendCalls.map (Call.crash p) } := rfl
  refine ⟨_, _, step_after rfl hstep (boot (n := n) rt (t.cluster.saved p)).cap, ?_, h.stored,
    h.votes.crash p, ?_⟩
  · refine h.update ⟨?_, ?_, ?_, [], .nil, .nil⟩ (fun q hq => ?_) (fun q hq heq => hq ?_)
      (fun q hq => Function.update_of_ne hq _ _) fun q hq => Function.update_of_ne hq _ _
    · simp [h.stored, behaviour, boot, Aliased.peer, Aliased.after]
    · simp [behaviour, boot, Aliased.after]
    · rw [h.stored]
      simp [behaviour, Aliased.after, moves, Nat.max_eq_left (boot_fits rt _)]
    · -- a call that was not sent is lost only with its caller
      intro k c hc hsrc hstage horphan _
      obtain ⟨src, dst, sentTerm, args, stage, orphan⟩ := c
      subst hstage horphan hsrc
      rw [calls_after rfl, List.getElem?_map, show t.cluster.appendCalls[k]? = _ from hc]
      simp [Call.crash, hq, Stage.serverCrash]
    · exact (Option.some.inj heq).symm
  · exact encoded_after (List.length_map _) (h.appends.crash p)

theorem Represents.step (h : Represents s t) {e : Remote.Event (Fin n) (Act Cmd)}
    (hstep : Remote.Step (behaviour rt n Cmd) s e s') :
    ∃ e t', t.step e = .ok t' ∧ Represents s' t' := by
  cases hstep with
  | act hact => exact h.act hact
  | handle hk hsent hhandle => exact h.handle hk hsent hhandle
  | release hk hhandled hrelease => exact h.release hk hhandled hrelease
  | accept hk hreturned horphan haccept => exact h.accept hk hreturned horphan haccept
  | crash => exact h.crash _

/-- What can be seen of a deployment in a cluster: the state of every live instance, and what the
next instance of every peer would read. -/
structure Shows (w : Labrpc.World n (Peer n Cmd) (Request Cmd) Reply (Persistent Cmd))
    (t : Aliased n Cmd) : Prop where
  live : ∀ (j : Nat) (inst : Labrpc.Instance n) (st : Peer n Cmd),
    w.config.instances[j]? = some inst → w.states[j]? = some st → w.config.Live inst →
    st.raft = t.peer inst.name ∧ st.ticker = t.cluster.ticker inst.name
  saved : ∀ p, w.savedState p = t.cluster.saved p

def Deploys (rt : Runtime) (w : Labrpc.World n (Peer n Cmd) (Request Cmd) Reply (Persistent Cmd))
    (t : Aliased n Cmd) : Prop :=
  ∃ s, Labrpc.World.Simulates (behaviour rt n Cmd) w s ∧ Represents s t

theorem Deploys.shows {w : Labrpc.World n (Peer n Cmd) (Request Cmd) Reply (Persistent Cmd)}
    (h : Deploys rt w t) : Shows w t := by
  obtain ⟨s, hsim, hrep⟩ := h
  refine ⟨fun j inst st hinst hst hlive => ?_, fun p => ?_⟩
  · have hn := hrep.node inst.name
    rw [hsim.nodes.live j inst st hinst hst hlive] at hn
    exact ⟨hn.raft, hn.ticker⟩
  · exact (hsim.nodes.stored p).symm.trans (congrFun hrep.stored p)

theorem Deploys.step {wire : Labrpc.Wire (Request Cmd) Reply}
    {w w' : Labrpc.World n (Peer n Cmd) (Request Cmd) Reply (Persistent Cmd)}
    {ev : Labrpc.World.Event n (Act Cmd) Reply} (h : Deploys rt w t)
    (hstep : w.step (behaviour rt n Cmd) (wiring Cmd) wire ev = some w') :
    Deploys rt w' t ∨ ∃ e t', (True ∧ t.step e = .ok t') ∧ Deploys rt w' t' := by
  obtain ⟨s, hsim, hrep⟩ := h
  rcases hsim.step hstep with hsim | ⟨e, s', hstep, hsim⟩
  · exact .inl ⟨s, hsim, hrep⟩
  · obtain ⟨e', t', hstep', hrep⟩ := hrep.step hstep
    exact .inr ⟨e', t', ⟨trivial, hstep'⟩, s', hsim, hrep⟩

theorem refines_cluster {wire : Labrpc.Wire (Request Cmd) Reply}
    {w : Labrpc.World n (Peer n Cmd) (Request Cmd) Reply (Persistent Cmd)}
    {ω : List (Labrpc.World n (Peer n Cmd) (Request Cmd) Reply (Persistent Cmd))}
    (hrun : Labrpc.World.Run (behaviour rt n Cmd) (wiring Cmd) wire (w :: ω)) :
    ∃ t τ, Aliased.Run (fun _ => rt.append 0 1) (fun _ _ => True) (t :: τ) ∧ Shows w t ∧
      ∀ w' ∈ ω, ∃ t' ∈ t :: τ, Shows w' t' := by
  have hinit : Deploys rt (.init : Labrpc.World n (Peer n Cmd) (Request Cmd) Reply (Persistent Cmd))
      (Aliased.init fun _ => rt.append 0 1) := ⟨_, Labrpc.World.simulates_init, represents_init⟩
  obtain ⟨t, τ, hτ, hs, hall, -⟩ := History.Run.refines hrun hinit fun _ _ _ _ h hstep => h.step hstep
  refine ⟨t, τ, hτ, hs.shows, fun w' hw' => ?_⟩
  obtain ⟨t', ht', h⟩ := hall w' hw'
  exact ⟨t', ht', h.shows⟩

end

def doubling : Runtime where
  grow old len := max (2 * old) len
  decode len := len
  le_grow _ _ := Nat.le_max_right _ _
  le_decode _ := le_rfl

def elected : List (Labrpc.World.Event 3 (Act Nat) Reply) :=
  .op (.start1 0) :: List.replicate 21 .command ++ .op (.start1 1) :: List.replicate 21 .command ++
  .op (.start1 2) :: List.replicate 21 .command ++
  .op (.connect 0) :: List.replicate 7 .command ++ .op (.connect 1) :: List.replicate 7 .command ++
  [.act 0 .persist, .act 0 .becomeCandidate, .act 1 .persist, .net 0 .receive,
    .net 0 .readEndnameInfo, .net 0 .execute, .net 0 .dispatch, .handle 0, .release 0,
    .net 0 .collect, .net 0 (.check .delivered), .net 0 .reply, .accept 0 0]

/-- Peer 0 then sends its first entry to peer 1, which appends it. -/
def replicated : List (Labrpc.World.Event 3 (Act Nat) Reply) :=
  elected ++ [.act 0 (.start 7), .act 0 .persist, .act 0 .sendHeartBeats, .act 0 (.encode 2),
    .act 1 .persist, .net 2 .receive, .net 2 .readEndnameInfo, .net 2 .execute, .net 2 .dispatch,
    .handle 2]

theorem refines_cluster_replicated : ∃ (t : Aliased 3 Nat) (τ : List (Aliased 3 Nat)),
    Aliased.Run (fun _ => 1) (fun _ _ => True) (t :: τ) ∧ Leads t.cluster 0 1 ∧
      (t.peer 1).log = [⟨0, 0⟩, ⟨1, 7⟩] := by
  obtain ⟨w, ω, hrun, hinst, hinst', hst, hst', hsaved, hsaved'⟩ := History.exists_trace
    (fun (w : Labrpc.World 3 (Peer 3 Nat) (Request Nat) Reply (Persistent Nat)) e =>
      w.step (behaviour doubling 3 Nat) (wiring Nat) ⟨fun _ => 1, fun _ => 1⟩ e)
    (fun _ _ _ h => h) .init
    (fun ω => ω.head?.map (·.config.instances[0]?) = some (some ⟨0, 0, 0⟩) ∧
      ω.head?.map (·.config.instances[1]?) = some (some ⟨1, 1, 1⟩) ∧
      ω.head?.map (·.states[0]?.map fun st => (st.raft.state, st.raft.currentTerm)) =
        some (some (.leader, 1)) ∧
      ω.head?.map (·.states[1]?.map (·.raft.log)) = some (some [⟨0, 0⟩, ⟨1, 7⟩]) ∧
      ω.head?.map (·.config.saved 0) = some (some 0) ∧
      ω.head?.map (·.config.saved 1) = some (some 1)) replicated (by decide +kernel)
  obtain ⟨t, τ, hτ, hshows, -⟩ := refines_cluster hrun
  simp only [List.head?_cons, Option.map_some, Option.some.injEq] at hinst hinst' hst hst' hsaved hsaved'
  obtain ⟨st, hst, hleads⟩ := Option.map_eq_some_iff.mp hst
  obtain ⟨st', hst', hlog⟩ := Option.map_eq_some_iff.mp hst'
  rw [(hshows.live 0 ⟨0, 0, 0⟩ st hinst hst hsaved).1] at hleads
  rw [(hshows.live 1 ⟨1, 1, 1⟩ st' hinst' hst' hsaved').1] at hlog
  exact ⟨t, τ, hτ, Prod.mk.inj hleads, hlog⟩

end MrAndRaft.Deployed
