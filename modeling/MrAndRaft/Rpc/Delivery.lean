import MrAndRaft.Rpc.NetworkLaws

/-! What a caller may conclude from `Call`: `true` comes from a handler that ran, on a server
that was still there afterwards; and on a network where nothing fails there is no `false`. -/

namespace MrAndRaft.Labrpc

variable {E S Q R : Type}

structure Switch.Serves (sw : Switch E S) (e : E) (info : Info S) : Prop where
  enabled : sw.enabled e
  servers : sw.servers info.servername = some info.server

section

variable [DecidableEq S] {sw : Switch E S} {t : Traffic E S Q R} {e : E} {svcMeth : Name}
  {ph ph' : Phase S R} {h h' : Handler R} {m : Move R}

theorem Moved.info (hm : Moved sw t e svcMeth ph h m ph' h') {info : Info S}
    (hinfo : ph'.info = some info) :
    ph.info = some info ∨ ph = .received ∧ sw.Serves e info ∧
      sw.connections e = some info.servername ∧ info.reliable = sw.reliable := by
  cases hm with
  | accept hen hconn hsrv =>
    cases hinfo
    exact .inr ⟨rfl, ⟨hen, hsrv⟩, hconn, rfl⟩
  | execute | collect | dead => exact .inl hinfo
  | _ => simp_all [Phase.info]

theorem Moved.server (hm : Moved sw t e svcMeth ph h m ph' h') {j : Nat}
    (hj : h'.server = some j) :
    h.server = some j ∨ ∃ info, ph.info = some info ∧ info.server = j := by
  cases hm with
  | @execute info _ => exact .inr ⟨info, rfl, by simpa [Handler.server] using hj⟩
  | _ => exact .inl hj

theorem Moved.rcvr (hm : Moved sw t e svcMeth ph h m ph' h') {i : Nat} (hi : h'.rcvr = some i) :
    (h.rcvr = some i ∧ h'.server = h.server) ∨
      ∃ j rs, h'.server = some j ∧ t.pool[j]? = some rs ∧ rs.dispatch svcMeth = some i := by
  cases hm with
  | dispatch hrs hdisp =>
    cases hi
    exact .inr ⟨_, _, rfl, hrs, hdisp⟩
  | execute => cases hi
  | _ => exact .inl ⟨hi, rfl⟩

omit [DecidableEq S] in
theorem Paired.ended_of_message (hp : Paired ph h) {r : R} (hr : ph.message = some (some r)) :
    ∃ j i, h = .ended j i r := by
  cases ph with
  | replying msg | returned msg =>
    cases hr
    exact hp
  | _ => cases hr

theorem Moved.message (hm : Moved sw t e svcMeth ph h m ph' h') (hp : Paired ph h) {r : R}
    (hr : ph'.message = some (some r)) :
    h' = h ∧ (ph.message = some (some r) ∨
      ∃ info, ph = .finished info (some r) ∧ sw.Serves e info) := by
  cases hm with
  | @checkPassed info r' h fate halive =>
    cases hr
    obtain ⟨hen, hsrv⟩ := Switch.isServerDead_eq_false.mp halive
    exact ⟨rfl, .inr ⟨info, rfl, hen, hsrv⟩⟩
  | reply => exact ⟨rfl, .inl hr⟩
  | dispatch | handle | handlerReturns | drain =>
    obtain ⟨j, i, hend⟩ := hp.ended_of_message hr
    cases hend
  | _ => simp [Phase.message] at hr

end

def Routed (σ : List (Network E S Q R)) (k : Nat) (e : E) (info : Info S) : Prop :=
  ∃ s ∈ σ, (∃ c, s.traffic.calls[k]? = some c ∧ c.phase = .received) ∧ s.switch.Serves e info ∧
    s.switch.connections e = some info.servername ∧ info.reliable = s.switch.reliable

/-- At some moment after that the reply was there, the end was enabled and the server was still
registered under its name; `isServerDead` does not look where the end leads. -/
def Confirmed (σ : List (Network E S Q R)) (k : Nat) (e : E) (j i : Nat) (r : R) : Prop :=
  ∃ s τ c info, s :: τ <:+ σ ∧ s.traffic.calls[k]? = some c ∧ c.handler = .ended j i r ∧
    info.server = j ∧ s.switch.Serves e info ∧ Routed (s :: τ) k e info

theorem Routed.cons {σ : List (Network E S Q R)} {k : Nat} {e : E} {info : Info S}
    (s : Network E S Q R) (h : Routed σ k e info) : Routed (s :: σ) k e info := by
  obtain ⟨t, ht, hread⟩ := h
  exact ⟨t, List.mem_cons_of_mem _ ht, hread⟩

theorem Confirmed.cons {σ : List (Network E S Q R)} {k : Nat} {e : E} {j i : Nat} {r : R}
    (s : Network E S Q R) (h : Confirmed σ k e j i r) : Confirmed (s :: σ) k e j i r := by
  obtain ⟨t, τ, c, info, hsuf, hread⟩ := h
  exact ⟨t, τ, c, info, hsuf.trans (List.suffix_cons _ _), hread⟩

structure Traced (σ : List (Network E S Q R)) (k : Nat) (c : Pending E S Q R) : Prop where
  paired : Paired c.phase c.handler
  routed : ∀ info, c.phase.info = some info → Routed σ k c.endname info
  started : ∀ j, c.handler.server = some j → ∃ info, info.server = j ∧ Routed σ k c.endname info
  dispatched : ∀ i, c.handler.rcvr = some i → ∃ s ∈ σ, ∃ j rs, c.handler.server = some j ∧
    s.traffic.pool[j]? = some rs ∧ rs.dispatch c.svcMeth = some i
  confirmed : ∀ r, c.phase.message = some (some r) →
    ∃ j i, c.handler = .ended j i r ∧ Confirmed σ k c.endname j i r

theorem Traced.cons {σ : List (Network E S Q R)} {k : Nat} {c : Pending E S Q R}
    (s : Network E S Q R) (h : Traced σ k c) : Traced (s :: σ) k c where
  paired := h.paired
  routed info hinfo := (h.routed info hinfo).cons s
  started j hj := by
    obtain ⟨info, hsrv, hr⟩ := h.started j hj
    exact ⟨info, hsrv, hr.cons s⟩
  dispatched i hi := by
    obtain ⟨t, ht, hread⟩ := h.dispatched i hi
    exact ⟨t, List.mem_cons_of_mem _ ht, hread⟩
  confirmed r hr := by
    obtain ⟨j, i, hh, hconf⟩ := h.confirmed r hr
    exact ⟨j, i, hh, hconf.cons s⟩

theorem Traced.new (σ : List (Network E S Q R)) (k : Nat) (e : E) (svcMeth : Name) (args : Q) :
    Traced σ k { endname := e, svcMeth, args } where
  paired := rfl
  routed := by simp [Phase.info]
  started := by simp [Handler.server]
  dispatched := by simp [Handler.rcvr]
  confirmed := by simp [Phase.message]

theorem Traced.move [DecidableEq S] {σ : List (Network E S Q R)} {s s' : Network E S Q R}
    {k : Nat} {m : Move R} {c c' : Pending E S Q R} (h : Traced (s :: σ) k c)
    (hc : s.traffic.calls[k]? = some c) (hm : c.move s.switch s.traffic m = .ok c') :
    Traced (s' :: s :: σ) k c' := by
  obtain ⟨he, hmeth, -, hmoved⟩ := Pending.move_ok hm
  refine ⟨hmoved.paired h.paired, ?_, ?_, ?_, ?_⟩
  · intro info hinfo
    rw [he]
    rcases hmoved.info hinfo with hold | ⟨hph, hnew⟩
    · exact (h.routed info hold).cons s'
    · exact ⟨s, by simp, ⟨c, hc, hph⟩, hnew⟩
  · intro j hj
    rw [he]
    rcases hmoved.server hj with hold | ⟨info, hinfo, hsrv⟩
    · exact (h.cons s').started j hold
    · exact ⟨info, hsrv, (h.routed info hinfo).cons s'⟩
  · intro i hi
    rw [hmeth]
    rcases hmoved.rcvr hi with ⟨hold, hsrv⟩ | ⟨j, rs, hnew⟩
    · rw [hsrv]
      exact (h.cons s').dispatched i hold
    · exact ⟨s, by simp, j, rs, hnew⟩
  · intro r hr
    obtain ⟨hsame, hold | ⟨info, hph, hserves⟩⟩ := hmoved.message h.paired hr
    · rw [hsame, he]
      exact (h.cons s').confirmed r hold
    · -- the state in which the check was made is the one before
      have hp := h.paired
      rw [hph] at hp
      obtain ⟨i, hh⟩ := hp
      have hrouted := h.routed info (by rw [hph]; rfl)
      rw [hsame, he]
      exact ⟨info.server, i, hh, s, σ, c, info, List.suffix_cons _ _, hc, hh, rfl, hserves, hrouted⟩

section

variable [DecidableEq E] [DecidableEq S] {wire : Wire Q R} {s : Network E S Q R}
  {σ : List (Network E S Q R)} {k : Nat} {c : Pending E S Q R}

theorem Network.Run.traced (hrun : Network.Run wire (s :: σ)) (hc : s.traffic.calls[k]? = some c) :
    Traced (s :: σ) k c :=
  hrun.forall_calls (fun s _ _ _ h => h.cons s) Traced.new
    (fun _ _ _ _ _ _ _ _ h hc _ hm => h.move hc hm) k c hc

structure Switch.Steady (sw : Switch E S) (e : E) (name : S) (j : Nat) : Prop where
  reliable : sw.reliable
  enabled : sw.enabled e
  connected : sw.connections e = some name
  registered : sw.servers name = some j
  running : sw.done = false

omit [DecidableEq E] in
instance (sw : Switch E S) (e : E) (name : S) (j : Nat) : Decidable (sw.Steady e name j) :=
  decidable_of_iff (sw.reliable ∧ sw.enabled e ∧ sw.connections e = some name ∧
      sw.servers name = some j ∧ sw.done = false)
    ⟨fun ⟨h₁, h₂, h₃, h₄, h₅⟩ => ⟨h₁, h₂, h₃, h₄, h₅⟩,
      fun ⟨h₁, h₂, h₃, h₄, h₅⟩ => ⟨h₁, h₂, h₃, h₄, h₅⟩⟩

theorem exists_answered_call :
    ∃ (s : Network Nat Nat Nat Nat) (σ : List (Network Nat Nat Nat Nat))
      (c : Pending Nat Nat Nat Nat), Network.Run ⟨fun _ => 1, fun _ => 1⟩ (s :: σ) ∧
      s.traffic.calls[0]? = some c ∧ c.endname = 0 ∧ c.phase = .returned (some 7) ∧
      ∀ t ∈ s :: σ, (t.traffic.calls[0]?).isSome → t.switch.Steady 0 1 0 := by
  obtain ⟨s, σ, hrun, hlast, hsteady⟩ := History.exists_trace
    (fun (s : Network Nat Nat Nat Nat) e => (s.step ⟨fun _ => 1, fun _ => 1⟩ e).toOption)
    (fun _ _ _ => History.toOption_eq_some) Network.makeNetwork
    (fun σ => (σ.head?.bind fun s => s.traffic.calls[0]?).map (fun c => (c.endname, c.phase)) =
        some (0, .returned (some 7)) ∧
      ∀ t ∈ σ, (t.traffic.calls[0]?).isSome → t.switch.Steady 0 1 0)
    [.makeServer, .addService 0 ⟨['R'], 5, [['m']]⟩, .admin (.addServer 1 0), .admin (.makeEnd 0),
      .admin (.connect 0 1), .admin (.enable 0 true), .call 0 ['R', '.', 'm'] 3, .move 0 .receive,
      .move 0 .readEndnameInfo, .move 0 .execute, .move 0 .dispatch, .move 0 (.handle 7),
      .move 0 .handlerReturns, .move 0 .collect, .move 0 (.check .delivered), .move 0 .reply]
    (by decide +kernel)
  obtain ⟨c, hc, hlast⟩ := Option.map_eq_some_iff.mp hlast
  obtain ⟨hend, hret⟩ := Prod.mk.inj hlast
  exact ⟨s, σ, c, hrun, hc, hend, hret, hsteady⟩

/-- `Call` returns `true` only with the reply of a handler that has returned, run on the server
the end led to when the request was read and that was still registered after that, the end being
enabled. -/
theorem Network.Run.call_true (hrun : Network.Run wire (s :: σ))
    (hc : s.traffic.calls[k]? = some c) {r : R} (hret : c.phase = .returned (some r)) :
    ∃ j i, c.handler = .ended j i r ∧ Confirmed (s :: σ) k c.endname j i r ∧
      ∃ t ∈ s :: σ, ∃ rs, t.traffic.pool[j]? = some rs ∧ rs.dispatch c.svcMeth = some i := by
  have h := hrun.traced hc
  obtain ⟨j, i, hh, hconf⟩ := h.confirmed r (by rw [hret]; rfl)
  obtain ⟨t, ht, j', rs, hj, hrs, hdisp⟩ := h.dispatched i (by rw [hh]; rfl)
  rw [hh] at hj
  cases hj
  exact ⟨j, i, hh, hconf, t, ht, rs, hrs, hdisp⟩

theorem call_true_answered :
    ∃ (s : Network Nat Nat Nat Nat) (σ : List (Network Nat Nat Nat Nat)) (j i : Nat),
      Confirmed (s :: σ) 0 0 j i 7 := by
  obtain ⟨s, σ, c, hrun, hc, he, hret, -⟩ := exists_answered_call
  obtain ⟨j, i, -, hconf, -⟩ := hrun.call_true hc hret
  exact ⟨s, σ, j, i, he ▸ hconf⟩

structure Answered (name : S) (j : Nat) (ph : Phase S R) : Prop where
  info : ∀ info, ph.info = some info →
    info.servername = name ∧ info.server = j ∧ info.reliable = true
  finished : ∀ info, ph ≠ .finished info none
  message : ph.message ≠ some none

omit [DecidableEq E] in
theorem Moved.answered {sw : Switch E S} {t : Traffic E S Q R} {e : E} {svcMeth : Name}
    {ph ph' : Phase S R} {h h' : Handler R} {m : Move R} {name : S} {j : Nat}
    (hm : Moved sw t e svcMeth ph h m ph' h') (hs : sw.Steady e name j)
    (ha : Answered name j ph) : Answered name j ph' := by
  have halive {info : Info S} (hinfo : ph.info = some info) : sw.isServerDead e info = false := by
    obtain ⟨rfl, rfl, -⟩ := ha.info info hinfo
    exact Switch.isServerDead_eq_false.mpr ⟨hs.enabled, hs.registered⟩
  cases hm with
  | giveUp hdone => simp [hs.running] at hdone
  | receive => exact ⟨by simp [Phase.info], by simp, by simp [Phase.message]⟩
  | accept _ hconn hsrv =>
    obtain rfl := Option.some.inj (hs.connected.symm.trans hconn)
    obtain rfl := Option.some.inj (hs.registered.symm.trans hsrv)
    refine ⟨?_, by simp, by simp [Phase.message]⟩
    rintro _ ⟨⟩
    exact ⟨rfl, rfl, hs.reliable⟩
  | refuse hno => exact absurd hs.registered (hno name j hs.enabled hs.connected)
  | dropRequest hrel => simp [(ha.info _ rfl).2.2] at hrel
  | execute => exact ⟨ha.info, by simp, by simp [Phase.message]⟩
  | dispatch | handle | handlerReturns | alive | drain => exact ha
  | collect => exact ⟨ha.info, by simp, by simp [Phase.message]⟩
  | dead hdead => simp [halive rfl] at hdead
  | checkNone => exact absurd rfl (ha.finished _)
  | checkDead hdead => simp [halive rfl] at hdead
  | dropReply hrel => simp [(ha.info _ rfl).2.2] at hrel
  | checkPassed => exact ⟨by simp [Phase.info], by simp, by simp [Phase.message]⟩
  | reply => exact ⟨by simp [Phase.info], by simp, ha.message⟩

theorem Network.Run.answered (hrun : Network.Run wire (s :: σ))
    (hc : s.traffic.calls[k]? = some c) {name : S} {j : Nat}
    (hs : ∀ t ∈ s :: σ, (t.traffic.calls[k]?).isSome → t.switch.Steady c.endname name j) :
    Answered name j c.phase := by
  let P (σ : List (Network E S Q R)) (k : Nat) (c : Pending E S Q R) : Prop :=
    (∀ t ∈ σ, (t.traffic.calls[k]?).isSome → t.switch.Steady c.endname name j) →
      Answered name j c.phase
  suffices h : P (s :: σ) k c from h hs
  refine hrun.forall_calls ?_ ?_ ?_ k c hc
  · intro s σ k c h hs
    exact h fun t ht => hs t (List.mem_cons_of_mem _ ht)
  · intro σ k e svcMeth args _
    exact ⟨by simp [Phase.info], by simp, by simp [Phase.message]⟩
  · intro s s' σ k m c c' _ h hc _ hm hs
    obtain ⟨he, -, -, hmoved⟩ := Pending.move_ok hm
    rw [he] at hs
    refine hmoved.answered (hs s (by simp) (by simp [hc])) (h fun t ht => ?_)
    exact hs t (List.mem_cons_of_mem _ ht)

theorem Network.Run.call_not_false (hrun : Network.Run wire (s :: σ))
    (hc : s.traffic.calls[k]? = some c) {name : S} {j : Nat}
    (hs : ∀ t ∈ s :: σ, (t.traffic.calls[k]?).isSome → t.switch.Steady c.endname name j) :
    c.phase ≠ .returned none := by
  intro hret
  exact (hrun.answered hc hs).message (by rw [hret]; rfl)

theorem call_not_false_answered :
    ∃ (s : Network Nat Nat Nat Nat) (σ : List (Network Nat Nat Nat Nat))
      (c : Pending Nat Nat Nat Nat), Network.Run ⟨fun _ => 1, fun _ => 1⟩ (s :: σ) ∧
      s.traffic.calls[0]? = some c ∧ c.phase ≠ .returned none := by
  obtain ⟨s, σ, c, hrun, hc, he, -, hsteady⟩ := exists_answered_call
  exact ⟨s, σ, c, hrun, hc, hrun.call_not_false hc (by rw [he]; exact hsteady)⟩

end

end MrAndRaft.Labrpc
