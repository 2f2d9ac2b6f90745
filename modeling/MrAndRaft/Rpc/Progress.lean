import MrAndRaft.Rpc.Delivery

/-! No call is stuck: as long as handlers return, `Call` does. -/

namespace MrAndRaft.Labrpc

variable {E S Q R : Type}

def Pending.steps (c : Pending E S Q R) : Nat :=
  c.phase.steps + c.handler.steps

section

variable [DecidableEq S] {sw : Switch E S} {t : Traffic E S Q R} {c c' : Pending E S Q R}
  {m : Move R}

/-- Only a `time.After` that finds the server alive changes nothing. -/
theorem Moved.steps_lt {e : E} {svcMeth : Name} {ph ph' : Phase S R} {h h' : Handler R}
    (hm : Moved sw t e svcMeth ph h m ph' h') (hp : Paired ph h) (hpoll : m ≠ .poll) :
    ph'.steps + h'.steps < ph.steps + h.steps := by
  cases hm with
  | execute =>
    obtain rfl : h = .none := hp
    simp [Phase.steps, Handler.steps]
  | dead | alive => exact absurd rfl hpoll
  | _ => simp [Phase.steps, Handler.steps]

theorem Pending.steps_lt (hm : c.move sw t m = .ok c') (hp : Paired c.phase c.handler)
    (hpoll : m ≠ .poll) : c'.steps < c.steps :=
  (Pending.move_ok hm).2.2.2.steps_lt hp hpoll

theorem Pending.exists_move (hp : Paired c.phase c.handler)
    (hret : ∀ msg, c.phase ≠ .returned msg) (htaken : t.listening ∨ sw.done)
    (hknown : ∀ j, c.handler = .spawned j →
      ∃ rs, t.pool[j]? = some rs ∧ (rs.dispatch c.svcMeth).isSome) (r : R) :
    ∃ m c', m ≠ .poll ∧ c.move sw t m = .ok c' := by
  obtain ⟨e, svcMeth, args, ph, h⟩ := c
  cases ph with
  | sending =>
    rcases htaken with hlisten | hdone
    · exact ⟨.receive, _, by simp, by simp [Pending.move, hlisten]; rfl⟩
    · exact ⟨.giveUp, _, by simp, by simp [Pending.move, hdone]; rfl⟩
  | received => exact ⟨.readEndnameInfo, _, by simp, rfl⟩
  | accepted info => exact ⟨.execute, _, by simp, rfl⟩
  | waiting info =>
    cases h with
    | none => simp [Paired, Handler.server] at hp
    | spawned j =>
      obtain ⟨rs, hrs, hdisp⟩ := hknown j rfl
      obtain ⟨i, hi⟩ := Option.isSome_iff_exists.mp hdisp
      exact ⟨.dispatch, _, by simp, by simp [Pending.move, hrs, hi]; rfl⟩
    | running j i => exact ⟨.handle r, _, by simp, rfl⟩
    | replied j i r => exact ⟨.handlerReturns, _, by simp, rfl⟩
    | returned j i r => exact ⟨.collect, _, by simp, rfl⟩
    | ended j i r => simp [Paired, Handler.steps] at hp
  | finished info reply =>
    cases reply with
    | none => exact ⟨.check .delivered, _, by simp, rfl⟩
    | some r =>
      cases hdead : sw.isServerDead e info with
      | true => exact ⟨.check .delivered, _, by simp, by simp [Pending.move, hdead]; rfl⟩
      | false =>
        exact ⟨.check .delivered, _, by simp, by
          simp [Pending.move, hdead, Fate.message, Except.map]; rfl⟩
  | replying msg => exact ⟨.reply, _, by simp, rfl⟩
  | returned msg => exact absurd rfl (hret msg)

end

section

variable [DecidableEq E] [DecidableEq S] {wire : Wire Q R} {s s' : Network E S Q R}
  {σ : List (Network E S Q R)} {k : Nat} {c : Pending E S Q R}

omit [DecidableEq E] [DecidableEq S] in
theorem Traffic.tally_listening (t : Traffic E S Q R) (c : Pending E S Q R) (m : Move R) :
    (t.tally wire c m).listening = t.listening := by
  unfold Traffic.tally
  split <;> rfl

theorem Network.step_move (wire : Wire Q R) {c' : Pending E S Q R} {m : Move R}
    (hc : s.traffic.calls[k]? = some c) (hm : c.move s.switch s.traffic m = .ok c') :
    s.step wire (.move k m) =
      .ok ⟨s.switch, { s.traffic.tally wire c m with calls := s.traffic.calls.set k c' }⟩ := by
  simp [Network.step, Traffic.move, hc, hm, Except.map]

theorem Network.pool_length_le {ev : Event E S Q R} (h : s.step wire ev = .ok s') :
    s.traffic.pool.length ≤ s'.traffic.pool.length := by
  cases Network.step_ok h with
  | call | stop | admin => exact le_rfl
  | move => simp [Traffic.tally_pool_length]
  | makeServer | addService => simp

structure Network.Sound (s : Network E S Q R) : Prop where
  servers : ∀ name j, s.switch.servers name = some j → j < s.traffic.pool.length
  taken : s.traffic.listening ∨ s.switch.done

theorem Switch.admin_servers {sw sw' : Switch E S} {a : Admin E S} (h : sw.admin a = .ok sw')
    {name : S} {j : Nat} (hj : sw'.servers name = some j) :
    sw.servers name = some j ∨ a = .addServer name j := by
  cases a with
  | makeEnd | cleanup =>
    simp only [Switch.admin] at h
    split at h <;> cases h
    exact .inl hj
  | addServer name' rs =>
    cases h
    by_cases hname : name = name'
    · subst hname
      exact .inr (by simpa using hj)
    · exact .inl (by simpa [hname] using hj)
  | deleteServer name' =>
    cases h
    by_cases hname : name = name' <;> simp [hname] at hj
    exact .inl hj
  | reliable | longReordering | connect | enable =>
    cases h
    exact .inl hj

theorem Switch.admin_done {sw sw' : Switch E S} {a : Admin E S} (h : sw.admin a = .ok sw')
    (hdone : sw.done) : sw'.done := by
  cases a with
  | makeEnd =>
    simp only [Switch.admin] at h
    split at h <;> cases h
    exact hdone
  | cleanup => simp [Switch.admin, hdone] at h
  | _ =>
    cases h
    exact hdone

theorem Network.Sound.step {ev : Event E S Q R} (hs : s.Sound) (h : s.step wire ev = .ok s') :
    s'.Sound := by
  have hpool := Network.pool_length_le h
  cases Network.step_ok h with
  | call => exact ⟨hs.servers, hs.taken⟩
  | move =>
    refine ⟨fun name j hj => (hs.servers name j hj).trans_le hpool, ?_⟩
    simpa [Traffic.tally_listening] using hs.taken
  | makeServer | addService => exact ⟨fun name j hj => (hs.servers name j hj).trans_le hpool, hs.taken⟩
  | stop hdone => exact ⟨hs.servers, .inr hdone⟩
  | admin hvalid hadmin =>
    refine ⟨fun name j hj => ?_, hs.taken.imp_right (Switch.admin_done hadmin)⟩
    rcases Switch.admin_servers hadmin hj with hold | rfl
    · exact hs.servers name j hold
    · exact of_decide_eq_true hvalid

theorem Network.Run.sound (hrun : Network.Run wire σ) : ∀ s ∈ σ, s.Sound := by
  refine hrun.forall_mem ⟨?_, .inl rfl⟩ fun _ _ _ h hstep => h.step hstep
  simp [Network.makeNetwork, Switch.make]

theorem Network.Run.server_made (hrun : Network.Run wire (s :: σ))
    (hc : s.traffic.calls[k]? = some c) {j : Nat} (hj : c.handler.server = some j) :
    j < s.traffic.pool.length := by
  obtain ⟨info, rfl, t, ht, -, hserves, -⟩ := (hrun.traced hc).started j hj
  have hlt := (hrun.sound t ht).servers _ _ hserves.servers
  have hmono := hrun.pairwise (R := fun s t => s.traffic.pool.length ≤ t.traffic.pool.length)
    le_trans fun _ _ _ => Network.pool_length_le
  rcases List.mem_cons.mp ht with rfl | ht
  · exact hlt
  · exact hlt.trans_le ((List.pairwise_cons.mp hmono).1 t ht)

def Network.moves (wire : Wire Q R) (k : Nat) (s : Network E S Q R) (ms : List (Move R)) :
    Except Fault (Network E S Q R) :=
  ms.foldlM (fun s m => s.step wire (.move k m)) s

/-- Whatever the network was doing, a call can be brought to its end, its handler returning
`r` if it has not replied yet. -/
theorem Network.Run.call_completes (hrun : Network.Run wire (s :: σ))
    (hc : s.traffic.calls[k]? = some c)
    (hknown : ∀ (j : Nat) (rs : Server), s.traffic.pool[j]? = some rs →
      (rs.dispatch c.svcMeth).isSome) (r : R) :
    ∃ ms s' c' msg, ms.length ≤ c.steps ∧ s.moves wire k ms = .ok s' ∧
      s'.traffic.calls[k]? = some c' ∧ c'.phase = .returned msg := by
  generalize hn : c.steps = n
  induction n using Nat.strong_induction_on generalizing s σ c with
  | _ n ih =>
    by_cases hret : ∃ msg, c.phase = .returned msg
    · obtain ⟨msg, hret⟩ := hret
      exact ⟨[], s, c, msg, by simp, rfl, hc, hret⟩
    · simp only [not_exists] at hret
      have hpaired := (hrun.traced hc).paired
      have hserver {j : Nat} (hj : c.handler = .spawned j) : j < s.traffic.pool.length :=
        hrun.server_made hc (by rw [hj]; rfl)
      obtain ⟨m, c₁, hpoll, hm⟩ := Pending.exists_move hpaired hret
        (hrun.sound s (by simp)).taken
        (fun j hj => ⟨_, List.getElem?_eq_getElem (hserver hj),
          hknown j _ (List.getElem?_eq_getElem (hserver hj))⟩) r
      have hlt := Pending.steps_lt hm hpaired hpoll
      have hstep := Network.step_move wire hc hm
      obtain ⟨ms, s', c', msg, hlen, hmoves, hdone⟩ := ih c₁.steps (hn ▸ hlt)
        (.step hrun hstep) (List.getElem?_set_self (List.getElem?_eq_some_iff.mp hc).1)
        (fun j rs hrs => by
          obtain ⟨rs₀, hrs₀, hsvc⟩ := Traffic.exists_of_tally hrs
          rw [(Pending.move_ok hm).2.1, ← Server.dispatch_congr hsvc]
          exact hknown j rs₀ hrs₀) rfl
      refine ⟨m :: ms, s', c', msg, ?_, ?_, hdone⟩
      · simp only [List.length_cons]
        omega
      · rw [Network.moves, List.foldlM_cons, hstep]
        exact hmoves

theorem call_completes_from_sending :
    ∃ (s : Network Nat Nat Nat Nat) (c : Pending Nat Nat Nat Nat) (ms : List (Move Nat))
      (s' : Network Nat Nat Nat Nat) (c' : Pending Nat Nat Nat Nat) (msg : Option Nat),
      s.traffic.calls[0]? = some c ∧ c.phase = .sending ∧
      s.moves ⟨fun _ => 1, fun _ => 1⟩ 0 ms = .ok s' ∧ s'.traffic.calls[0]? = some c' ∧
      c'.phase = .returned msg := by
  obtain ⟨s, σ, hrun, hlast, hknown⟩ := History.exists_trace
    (fun (s : Network Nat Nat Nat Nat) e => (s.step ⟨fun _ => 1, fun _ => 1⟩ e).toOption)
    (fun _ _ _ => History.toOption_eq_some) Network.makeNetwork
    (fun σ => (σ.head?.bind fun s => s.traffic.calls[0]?).map (fun c => (c.svcMeth, c.phase)) =
        some (['R', '.', 'm'], .sending) ∧
      ∀ s ∈ σ.head?, ∀ rs ∈ s.traffic.pool, (rs.dispatch ['R', '.', 'm']).isSome)
    [.makeServer, .addService 0 ⟨['R'], 5, [['m']]⟩, .admin (.addServer 1 0), .admin (.makeEnd 0),
      .admin (.connect 0 1), .admin (.enable 0 true), .call 0 ['R', '.', 'm'] 3]
    (by decide +kernel)
  obtain ⟨c, hc, hlast⟩ := Option.map_eq_some_iff.mp hlast
  obtain ⟨hmeth, hph⟩ := Prod.mk.inj hlast
  obtain ⟨ms, s', c', msg, -, hdone⟩ := Network.Run.call_completes hrun hc (fun j rs hrs => by
    rw [hmeth]
    exact hknown s rfl rs (List.mem_of_getElem? hrs)) 7
  exact ⟨s, c, ms, s', c', msg, hc, hph, hdone⟩

end

end MrAndRaft.Labrpc
