import MrAndRaft.Lib.Correspondence
import MrAndRaft.Lib.Simulation
import MrAndRaft.Rpc.WorldLaws

/-! A program deployed on the simulated network is nodes that call one another at most once,
crash, and boot from what they have saved.  What crashed instances still do cannot be seen. -/

namespace MrAndRaft.Labrpc

def Handler.blocked {R : Type} : Handler R → Option (Nat × R)
  | .replied _ i r => some (i, r)
  | _ => .none

def Handler.result {R : Type} : Handler R → Option (Nat × R)
  | .returned _ i r => some (i, r)
  | .ended _ i r => some (i, r)
  | _ => .none

theorem Handler.eq_none_of_server {R : Type} {h : Handler R} (hs : h.server = .none) :
    h = .none := by
  cases h with
  | none => rfl
  | _ => cases hs

namespace World

variable {n : Nat} {σ Q R D A : Type} {b : Remote.Behaviour (Fin n) σ Q R D A}
  {wiring : Wiring Q} {wire : Wire Q R}

/-- Each node is the live instance of its peer, and without one it is as it will boot. -/
structure Nodes (b : Remote.Behaviour (Fin n) σ Q R D A) (config : Config n) (states : List σ)
    (contents : List (Option D)) (node : Fin n → σ) (stored : Fin n → Option D) : Prop where
  live : ∀ (j : Nat) (inst : Instance n) (st : σ), config.instances[j]? = some inst →
    states[j]? = some st → config.Live inst → node inst.name = st
  booted : ∀ i, config.Gone i → node i = b.boot i (stored i)
  stored : ∀ i, stored i = (config.saved i).bind fun p => contents.getD p none

section

variable {config config' : Config n} {states : List σ} {contents : List (Option D)}
  {node : Fin n → σ} {stored : Fin n → Option D} {j : Nat} {inst : Instance n}

theorem Nodes.set (h : Nodes b config states contents node stored) (hgood : config.Good)
    (hinst : config.instances[j]? = some inst) (hlive : config.Live inst) (st : σ) :
    Nodes b config (states.set j st) contents (Function.update node inst.name st) stored where
  live j' inst' st' hinst' hst' hlive' := by
    by_cases hj : j' = j
    · subst hj
      cases hinst.symm.trans hinst'
      rcases Position.of_set hst' with ⟨-, rfl⟩ | ⟨hne, -⟩
      · simp
      · exact absurd rfl hne
    · have hname : inst'.name ≠ inst.name := fun hname =>
        hj (hgood.live_unique hinst' hinst hname hlive' hlive)
      rw [Function.update_of_ne hname]
      refine h.live j' inst' st' hinst' ?_ hlive'
      rwa [List.getElem?_set_ne (Ne.symm hj)] at hst'
  booted i hgone := by
    have hi : i ≠ inst.name := fun hi => hgone j inst hinst hi.symm hlive
    rw [Function.update_of_ne hi]
    exact h.booted i hgone
  stored := h.stored

theorem Nodes.set_dead (h : Nodes b config states contents node stored)
    (hinst : config.instances[j]? = some inst) (hdead : ¬ config.Live inst) (st : σ) :
    Nodes b config (states.set j st) contents node stored where
  live j' inst' st' hinst' hst' hlive' := by
    rcases Position.of_set hst' with ⟨rfl, -⟩ | ⟨-, hst'⟩
    · cases hinst.symm.trans hinst'
      exact absurd hlive' hdead
    · exact h.live j' inst' st' hinst' hst' hlive'
  booted := h.booted
  stored := h.stored

theorem Nodes.save (h : Nodes b config states contents node stored) (hgood : config.Good)
    (hinst : config.instances[j]? = some inst) (hlive : config.Live inst)
    (hlen : contents.length = config.persisters) (d : D) :
    Nodes b config states (contents.set inst.persister (some d)) node
      (Function.update stored inst.name (some d)) where
  live := h.live
  booted i hgone := by
    have hi : i ≠ inst.name := fun hi => hgone j inst hinst hi.symm hlive
    rw [Function.update_of_ne hi]
    exact h.booted i hgone
  stored i := by
    by_cases hi : i = inst.name
    · subst hi
      have hlt := hgood.persisters.owned j inst hinst
      rw [Function.update_self, show config.saved inst.name = some inst.persister from hlive]
      simp [List.getD, hlen, hlt]
    · rw [Function.update_of_ne hi, h.stored i]
      cases hp : config.saved i with
      | none => rfl
      | some p =>
        have hne : inst.persister ≠ p := by
          rintro rfl
          exact hi (hgood.persisters.belongs i j inst hinst hp).symm
        simp [List.getD, List.getElem?_set_ne hne]

theorem Nodes.save_dead (h : Nodes b config states contents node stored) (hgood : config.Good)
    (hinst : config.instances[j]? = some inst) (hdead : ¬ config.Live inst) (d : D) :
    Nodes b config states (contents.set inst.persister (some d)) node stored where
  live := h.live
  booted := h.booted
  stored i := by
    rw [h.stored i]
    cases hp : config.saved i with
    | none => rfl
    | some p =>
      have hne : inst.persister ≠ p := by
        rintro rfl
        have hname := hgood.persisters.belongs i j inst hinst hp
        exact hdead (by rw [Config.Live, hname, hp])
      simp [List.getD, List.getElem?_set_ne hne]

theorem Nodes.frame (h : Nodes b config states contents node stored)
    (hinst : config'.instances = config.instances) (hsaved : config'.saved = config.saved) :
    Nodes b config' states contents node stored := by
  have hlive {inst} : config'.Live inst ↔ config.Live inst := by rw [Config.Live, hsaved]; rfl
  refine ⟨fun j inst st hj hst hl => ?_, fun i hgone => ?_, fun i => ?_⟩
  · exact h.live j inst st (hinst ▸ hj) hst (hlive.mp hl)
  · exact h.booted i fun j inst hj hname hl => hgone j inst (hinst ▸ hj) hname (hlive.mpr hl)
  · rw [hsaved]
    exact h.stored i

/-- Copying the persister is the crash: from here on the old instance is on its own. -/
theorem Nodes.crash (h : Nodes b config states contents node stored) (hgood : config.Good)
    (hlen : contents.length = config.persisters) (i : Fin n) :
    Nodes b (config.newSaved i) states (contents ++ [stored i])
      (Function.update node i (b.boot i (stored i))) stored where
  live j inst st hj hst hlive := by
    have hne : inst.name ≠ i := fun hname => hgood.gone_newSaved j inst hj hname hlive
    rw [Function.update_of_ne hne]
    exact h.live j inst st hj hst ((Config.live_newSaved hne).mp hlive)
  booted i' hgone := by
    by_cases hi : i' = i
    · rw [hi, Function.update_self]
    · rw [Function.update_of_ne hi]
      refine h.booted i' fun j inst hj hname hlive => hgone j inst hj hname ?_
      exact (Config.live_newSaved (hname ▸ hi)).mpr hlive
  stored i' := by
    rw [h.stored i', h.stored i, World.read_newSaved hgood hlen]

theorem Nodes.renew (h : Nodes b config states contents node stored) (hgood : config.Good)
    (hlen : contents.length = config.persisters) {i : Fin n} (hgone : config.Gone i) :
    Nodes b (config.newSaved i) states (contents ++ [stored i]) node stored := by
  have hcrash := h.crash hgood hlen i
  rwa [← h.booted i hgone, Function.update_eq_self] at hcrash

theorem Nodes.make (h : Nodes b config states contents node stored)
    (hlen : states.length = config.instances.length) {i : Fin n} {p g : Nat}
    (hgone : config.Gone i) :
    Nodes b { config with
        rafts := Function.update config.rafts i (some config.instances.length)
        instances := config.instances ++ [⟨i, p, g⟩] }
      (states ++ [b.boot i (stored i)]) contents node stored where
  live j inst st hj hst hlive := by
    rcases Position.of_concat hj with hj | ⟨rfl, rfl⟩
    · refine h.live j inst st hj ?_ hlive
      rwa [List.getElem?_append_left (hlen ▸ (List.getElem?_eq_some_iff.mp hj).1)] at hst
    · rw [← hlen, List.getElem?_concat_length] at hst
      rw [h.booted i hgone, Option.some.inj hst]
  booted i' hgone' := by
    exact h.booted i' fun j inst hj => hgone' j inst (Config.getElem?_instances hj)
  stored := h.stored

end

/-- The call of a live instance, on both sides.  What its handler did counts if the instance it
ran on is still live or if the reply has passed the last check. -/
structure Linked (config : Config n) (accepted : Bool) (c : Pending (Nat × Fin n) (Fin n) Q R)
    (a : Remote.Call (Fin n) Q R) : Prop where
  dst : a.dst = c.endname.2
  req : a.req = c.args
  src : ∀ inst, config.instances[c.endname.1]? = some inst →
    a.src = inst.name ∧ (a.orphan = false ↔ config.Live inst)
  sent : c.handler.blocked = none → c.handler.result = none → a.stage = .sent
  blocked : ∀ i r inst, c.handler.blocked = some (i, r) → config.instances[i]? = some inst →
    config.Live inst → a.stage = .handled r
  result : ∀ i r inst, c.handler.result = some (i, r) → config.instances[i]? = some inst →
    config.Live inst → accepted = false → a.stage = .returned r
  message : ∀ r, c.phase.message = some (some r) → accepted = false → a.stage = .returned r

/-- The call of an instance that was crashed before: no one takes it. -/
structure Stale (config : Config n) (c : Pending (Nat × Fin n) (Fin n) Q R) : Prop where
  caller : ∀ inst, config.instances[c.endname.1]? = some inst → ¬ config.Live inst
  handler : c.handler = .none
  info : c.phase.info = none
  message : ∀ r, c.phase.message ≠ some (some r)

section

variable {config config' : Config n} {t : Traffic (Nat × Fin n) (Fin n) Q R} {m : Move R}
  {c c' : Pending (Nat × Fin n) (Fin n) Q R} {a : Remote.Call (Fin n) Q R} {accepted : Bool}

theorem handler_move (hm : c.move config.switch t m = .ok c') (hp : Paired c.phase c.handler)
    (hint : internal m) :
    c'.handler.blocked = c.handler.blocked ∧ c'.handler.result = c.handler.result := by
  obtain ⟨e, svcMeth, args, ph, h⟩ := c
  obtain ⟨e', svcMeth', args', ph', h'⟩ := c'
  obtain ⟨rfl, rfl, rfl, hmoved⟩ := Pending.move_ok hm
  simp only at hmoved
  cases hmoved with
  | execute =>
    obtain rfl : h = .none := hp
    exact ⟨rfl, rfl⟩
  | handle | handlerReturns => cases hint
  | _ => exact ⟨rfl, rfl⟩

theorem Placed.checked (h : Placed config c) (hgood : config.Good) {info : Info (Fin n)} {r : R}
    (hph : c.phase = .finished info (some r)) (hserves : config.switch.Serves c.endname info) :
    ∃ i inst, c.handler.result = some (i, r) ∧ config.instances[i]? = some inst ∧
      config.Live inst := by
  have hp := h.paired
  rw [hph] at hp
  obtain ⟨i, hh⟩ := hp
  have hrcvr := h.rcvr i (by rw [hh]; rfl)
  rw [hh] at hrcvr
  obtain rfl : info.server = i := Option.some.inj hrcvr
  obtain ⟨inst, hinst, -, hlive⟩ := hgood.served _ _ hserves.servers
  exact ⟨info.server, inst, by rw [hh]; rfl, hinst, hlive⟩

theorem Linked.move (h : Linked config accepted c a) (hplaced : Placed config c)
    (hgood : config.Good) (hm : c.move config.switch t m = .ok c') (hint : internal m) :
    Linked config accepted c' a := by
  obtain ⟨he, -, hargs, hmoved⟩ := Pending.move_ok hm
  obtain ⟨hblocked, hresult⟩ := handler_move hm hplaced.paired hint
  refine ⟨by rw [he, h.dst], by rw [hargs, h.req], by rw [he]; exact h.src, ?_, ?_, ?_, ?_⟩
  · rw [hblocked, hresult]
    exact h.sent
  · rw [hblocked]
    exact h.blocked
  · rw [hresult]
    exact h.result
  · intro r hr haccepted
    obtain ⟨-, hold | ⟨info, hph, hserves⟩⟩ := hmoved.message hplaced.paired hr
    · exact h.message r hold haccepted
    · obtain ⟨i, inst, hres, hinst, hlive⟩ := hplaced.checked hgood hph hserves
      exact h.result i r inst hres hinst hlive haccepted

theorem Stale.move (h : Stale config c) (hplaced : Placed config c) (hgood : config.Good)
    (hm : c.move config.switch t m = .ok c') : Stale config c' := by
  obtain ⟨he, -, -, hmoved⟩ := Pending.move_ok hm
  refine ⟨by rw [he]; exact h.caller, ?_, ?_, fun r hr => ?_⟩
  · refine Handler.eq_none_of_server (Option.eq_none_iff_forall_ne_some.mpr fun j hj => ?_)
    rcases hmoved.server hj with hold | ⟨info, hinfo, -⟩
    · rw [h.handler] at hold
      cases hold
    · exact absurd (h.info.symm.trans hinfo) (by simp)
  · cases hinfo : c'.phase.info with
    | none => rfl
    | some info =>
      rcases hmoved.info hinfo with hold | ⟨-, hserves, -⟩
      · exact absurd (h.info.symm.trans hold) (by simp)
      · obtain ⟨inst, hinst, hlive⟩ := hgood.enabled c.endname.1 c.endname.2 hserves.enabled
        exact absurd hlive (h.caller inst hinst)
  · obtain ⟨-, hold | ⟨info, hph, -⟩⟩ := hmoved.message hplaced.paired hr
    · exact h.message r hold
    · have hinfo := h.info
      rw [hph] at hinfo
      cases hinfo

theorem Linked.setHandler (h : Linked config accepted c a) (hp : Paired c.phase c.handler)
    (hbusy : 0 < c.handler.steps) {h' : Handler R} {stage : Remote.Stage R}
    (hsent : h'.blocked = none → h'.result = none → stage = .sent)
    (hblocked : ∀ i r inst, h'.blocked = some (i, r) → config.instances[i]? = some inst →
      config.Live inst → stage = .handled r)
    (hresult : ∀ i r inst, h'.result = some (i, r) → config.instances[i]? = some inst →
      config.Live inst → stage = .returned r) :
    Linked config accepted { c with handler := h' } { a with stage } where
  dst := h.dst
  req := h.req
  src := h.src
  sent := hsent
  blocked := hblocked
  result i r inst hr hinst hlive _ := hresult i r inst hr hinst hlive
  message r hr := by
    obtain ⟨j, i, hend⟩ := hp.ended_of_message hr
    simp [hend, Handler.steps] at hbusy

theorem Linked.accept (h : Linked config accepted c a) {r : R} {stage : Remote.Stage R}
    (hret : c.phase = .returned (some r)) (hp : Paired c.phase c.handler) :
    Linked config true c { a with stage } where
  dst := h.dst
  req := h.req
  src := h.src
  sent _ hnone := by
    obtain ⟨j, i, hend⟩ := hp.ended_of_message (by rw [hret]; rfl)
    rw [hend] at hnone
    cases hnone
  blocked i r inst heq := by
    obtain ⟨j, i, hend⟩ := hp.ended_of_message (by rw [hret]; rfl)
    rw [hend] at heq
    cases heq
  result := by simp
  message := by simp

theorem linked_new {g : Nat} {inst : Instance n} (hinst : config.instances[g]? = some inst)
    (hlive : config.Live inst) (accepted : Bool) (j : Fin n) (svcMeth : Name) (q : Q) :
    Linked (R := R) config accepted { endname := (g, j), svcMeth, args := q }
      { src := inst.name, dst := j, req := q } where
  dst := rfl
  req := rfl
  src inst' hinst' := by
    cases hinst.symm.trans hinst'
    exact ⟨rfl, by simpa using hlive⟩
  sent _ _ := rfl
  blocked := by simp [Handler.blocked]
  result := by simp [Handler.result]
  message := by simp [Phase.message]

theorem stale_new {g : Nat} {inst : Instance n} (hinst : config.instances[g]? = some inst)
    (hdead : ¬ config.Live inst) (j : Fin n) (svcMeth : Name) (q : Q) :
    Stale (R := R) config { endname := (g, j), svcMeth, args := q } where
  caller inst' hinst' := by
    cases hinst.symm.trans hinst'
    exact hdead
  handler := rfl
  info := rfl
  message := by simp [Phase.message]

theorem Placed.instance_of_handler (h : Placed config c) {i : Nat} (hi : c.handler.rcvr = some i) :
    ∃ inst, config.instances[i]? = some inst ∧ inst.name = c.endname.2 :=
  h.server i (h.rcvr i hi)

theorem rcvr_of_blocked {h : Handler R} {i : Nat} {r : R} (hb : h.blocked = some (i, r)) :
    h.rcvr = some i := by
  cases h <;> simp_all [Handler.blocked, Handler.rcvr]

theorem rcvr_of_result {h : Handler R} {i : Nat} {r : R} (hb : h.result = some (i, r)) :
    h.rcvr = some i := by
  cases h <;> simp_all [Handler.result, Handler.rcvr]

theorem Linked.frame (h : Linked config accepted c a) (hplaced : Placed config c)
    (hinst : ∀ (j : Nat) (inst : Instance n), config.instances[j]? = some inst →
      config'.instances[j]? = some inst ∧ (config'.Live inst ↔ config.Live inst)) :
    Linked config' accepted c a where
  dst := h.dst
  req := h.req
  src inst' hinst' := by
    obtain ⟨inst, hold⟩ := hplaced.caller
    obtain ⟨hnew, hlive⟩ := hinst _ inst hold
    cases hnew.symm.trans hinst'
    obtain ⟨hsrc, horphan⟩ := h.src inst' hold
    exact ⟨hsrc, horphan.trans hlive.symm⟩
  sent := h.sent
  blocked i r inst' hb hinst' hlive' := by
    obtain ⟨inst, hold, -⟩ := hplaced.instance_of_handler (rcvr_of_blocked hb)
    obtain ⟨hnew, hlive⟩ := hinst _ inst hold
    cases hnew.symm.trans hinst'
    exact h.blocked i r inst' hb hold (hlive.mp hlive')
  result i r inst' hr hinst' hlive' := by
    obtain ⟨inst, hold, -⟩ := hplaced.instance_of_handler (rcvr_of_result hr)
    obtain ⟨hnew, hlive⟩ := hinst _ inst hold
    cases hnew.symm.trans hinst'
    exact h.result i r inst' hr hold (hlive.mp hlive')
  message := h.message

theorem Stale.frame (h : Stale config c) (hplaced : Placed config c)
    (hinst : ∀ (j : Nat) (inst : Instance n), config.instances[j]? = some inst →
      config'.instances[j]? = some inst ∧ (config'.Live inst → config.Live inst)) :
    Stale config' c where
  caller inst' hinst' := by
    obtain ⟨inst, hold⟩ := hplaced.caller
    obtain ⟨hnew, hlive⟩ := hinst _ inst hold
    cases hnew.symm.trans hinst'
    exact fun hl => h.caller inst' hold (hlive hl)
  handler := h.handler
  info := h.info
  message := h.message

/-- A crash makes orphans of the calls of the old instance and loses the replies its handlers
have not returned. -/
theorem Linked.crash (h : Linked config accepted c a) (hplaced : Placed config c)
    (hgood : config.Good) (i : Fin n) : Linked (config.newSaved i) accepted c (a.crash i) where
  dst := h.dst
  req := h.req
  src inst hinst := by
    obtain ⟨hsrc, horphan⟩ := h.src inst hinst
    refine ⟨hsrc, ?_⟩
    by_cases hname : inst.name = i
    · simp [Remote.Call.crash, hsrc, hname, hgood.gone_newSaved (i := i) _ inst hinst hname]
    · rw [Config.live_newSaved hname, ← horphan]
      simp [Remote.Call.crash, hsrc, hname]
  sent hb hr := by
    simp [Remote.Call.crash, h.sent hb hr, Remote.Stage.serverCrash]
  blocked i' r inst hb hinst hlive := by
    have hname : inst.name ≠ i := fun hname => hgood.gone_newSaved _ inst hinst hname hlive
    obtain ⟨inst', hinst', hdst⟩ := hplaced.instance_of_handler (rcvr_of_blocked hb)
    cases hinst.symm.trans hinst'
    have hne : a.dst ≠ i := by rw [h.dst, ← hdst]; exact hname
    have := h.blocked i' r inst hb hinst ((Config.live_newSaved hname).mp hlive)
    simp [Remote.Call.crash, hne, this]
  result i' r inst hr hinst hlive hacc := by
    have hname : inst.name ≠ i := fun hname => hgood.gone_newSaved _ inst hinst hname hlive
    have := h.result i' r inst hr hinst ((Config.live_newSaved hname).mp hlive) hacc
    simp [Remote.Call.crash, this, Remote.Stage.serverCrash]
  message r hr hacc := by
    simp [Remote.Call.crash, h.message r hr hacc, Remote.Stage.serverCrash]

end

structure Simulates (b : Remote.Behaviour (Fin n) σ Q R D A) (w : World n σ Q R D)
    (s : Remote.State (Fin n) σ Q R D) : Prop where
  sane : w.Sane
  nodes : Nodes b w.config w.states w.contents s.node s.stored
  calls : ∃ ι, Correspondence ι (fun k => Linked w.config (w.accepted k))
    (fun _ => Stale w.config) w.traffic.calls s.calls

section

variable {w w' : World n σ Q R D} {s : Remote.State (Fin n) σ Q R D}

theorem simulates_init : Simulates b (World.init : World n σ Q R D) (Remote.State.init b) where
  sane := sane_init
  nodes := ⟨by simp [World.init, Config.init], fun _ _ => rfl, fun _ => rfl⟩
  calls := ⟨_, Correspondence.empty _⟩

theorem Simulates.net (h : Simulates b w s) {k : Nat} {m : Move R}
    {traffic : Traffic (Nat × Fin n) (Fin n) Q R} (hint : internal m)
    (hm : w.traffic.move wire w.config.switch k m = .ok traffic)
    (hsane : Sane { w with traffic }) : Simulates b { w with traffic } s := by
  obtain ⟨c, c', hc, hcm, rfl⟩ := Traffic.move_ok hm
  obtain ⟨ι, hcalls⟩ := h.calls
  have hplaced := h.sane.placed k c hc
  refine ⟨hsane, h.nodes, ι, hcalls.set_left hc (fun a hl => ?_) fun hs => ?_⟩
  · exact hl.move hplaced h.sane.good hcm hint
  · exact hs.move hplaced h.sane.good hcm

theorem Simulates.known (h : Simulates b w s) {k : Nat} {c : Pending (Nat × Fin n) (Fin n) Q R}
    (hc : w.traffic.calls[k]? = some c) (hh : c.handler ≠ .none) :
    ∃ ι m a, Correspondence ι (fun k => Linked w.config (w.accepted k))
      (fun _ => Stale w.config) w.traffic.calls s.calls ∧ ι k = some m ∧ s.calls[m]? = some a ∧
      Linked w.config (w.accepted k) c a := by
  obtain ⟨ι, hcalls⟩ := h.calls
  cases hk : ι k with
  | none => exact absurd (hcalls.alone k c hc hk).handler hh
  | some m =>
    obtain ⟨a, ha, hl⟩ := hcalls.linked k c m hc hk
    exact ⟨ι, m, a, hcalls, hk, ha, hl⟩

theorem Simulates.advance (h : Simulates b w s) (e : Remote.Event (Fin n) A)
    (stage : Remote.Stage R) {k m i : Nat} {inst : Instance n} {st : σ}
    {c' : Pending (Nat × Fin n) (Fin n) Q R} {a : Remote.Call (Fin n) Q R} {ι : Nat → Option Nat}
    {traffic : Traffic (Nat × Fin n) (Fin n) Q R}
    (hcalls : Correspondence ι (fun k => Linked w.config (w.accepted k)) (fun _ => Stale w.config)
      w.traffic.calls s.calls)
    (hk : ι k = some m) (ha : s.calls[m]? = some a)
    (hinst : w.config.instances[i]? = some inst) (htraffic : traffic.calls = w.traffic.calls.set k c')
    (hsane : Sane { w with states := w.states.set i st, traffic })
    (hlive : w.config.Live inst → Linked w.config (w.accepted k) c' { a with stage } ∧
      Remote.Step b s e ((s.setNode inst.name st).setStage m a stage))
    (hdead : ¬ w.config.Live inst → Linked w.config (w.accepted k) c' a) :
    Simulates b { w with states := w.states.set i st, traffic } s ∨
      ∃ e s', Remote.Step b s e s' ∧
        Simulates b { w with states := w.states.set i st, traffic } s' := by
  by_cases hl : w.config.Live inst
  · obtain ⟨hlinked, hstep⟩ := hlive hl
    refine .inr ⟨e, _, hstep, hsane, h.nodes.set h.sane.good hinst hl st, ι, ?_⟩
    simp only [htraffic]
    exact hcalls.set hk ha hlinked fun _ _ _ _ h => h
  · refine .inl ⟨hsane, h.nodes.set_dead hinst hl st, ι, ?_⟩
    simp only [htraffic]
    have hset := hcalls.set hk ha (hdead hl) fun _ _ _ _ h => h
    obtain ⟨hlt, rfl⟩ := List.getElem?_eq_some_iff.mp ha
    rwa [List.set_getElem_self hlt] at hset

theorem Simulates.handle (h : Simulates b w s) {k j i : Nat} {inst : Instance n} {st st' : σ}
    {r : R} {c : Pending (Nat × Fin n) (Fin n) Q R}
    {traffic : Traffic (Nat × Fin n) (Fin n) Q R} (hc : w.traffic.calls[k]? = some c)
    (hrun : c.handler = .running j i) (hinst : w.config.instances[i]? = some inst)
    (hst : w.states[i]? = some st) (hhandle : b.handle inst.name st c.args = some (st', r))
    (hm : w.traffic.move wire w.config.switch k (.handle r) = .ok traffic)
    (hsane : Sane { w with states := w.states.set i st', traffic }) :
    Simulates b { w with states := w.states.set i st', traffic } s ∨
      ∃ e s', Remote.Step b s e s' ∧
        Simulates b { w with states := w.states.set i st', traffic } s' := by
  obtain ⟨c₀, c', hc₀, hcm, rfl⟩ := Traffic.move_ok hm
  cases hc.symm.trans hc₀
  obtain rfl : { c with handler := .replied j i r } = c' := by
    simpa [Pending.move_handle hrun] using hcm
  have hplaced := h.sane.placed k c hc
  have hbusy : 0 < c.handler.steps := by simp [hrun, Handler.steps]
  obtain ⟨ι, m, a, hcalls, hk, ha, hl⟩ := h.known hc (by simp [hrun])
  obtain ⟨inst', hinst', hname⟩ := hplaced.instance_of_handler (i := i) (by rw [hrun]; rfl)
  cases hinst.symm.trans hinst'
  refine h.advance (.handle m) (.handled r) hcalls hk ha hinst rfl hsane
    (fun hlive => ⟨?_, ?_⟩) fun hdead => ?_
  · refine hl.setHandler hplaced.paired hbusy (by simp [Handler.blocked]) ?_ (by simp [Handler.result])
    intro i' r' _ heq _ _
    cases heq
    rfl
  · have hdst : inst.name = a.dst := hname.trans hl.dst.symm
    have hstage : a.stage = .sent := hl.sent (by rw [hrun]; rfl) (by rw [hrun]; rfl)
    rw [hdst]
    refine .handle ha hstage ?_
    rw [← hdst, h.nodes.live i inst st hinst hst hlive, hl.req, hhandle]
  · refine hl.setHandler hplaced.paired hbusy (by simp [Handler.blocked]) ?_ (by simp [Handler.result])
    intro i' r' inst' heq hinst' hlive
    cases heq
    cases hinst.symm.trans hinst'
    exact absurd hlive hdead

theorem Simulates.release (h : Simulates b w s) {k j i : Nat} {inst : Instance n} {st st' : σ}
    {r : R} {c : Pending (Nat × Fin n) (Fin n) Q R}
    {traffic : Traffic (Nat × Fin n) (Fin n) Q R} (hc : w.traffic.calls[k]? = some c)
    (hrun : c.handler = .replied j i r) (hinst : w.config.instances[i]? = some inst)
    (hst : w.states[i]? = some st) (hrelease : b.release inst.name st c.args r = some st')
    (hm : w.traffic.move wire w.config.switch k .handlerReturns = .ok traffic)
    (hsane : Sane { w with states := w.states.set i st', traffic }) :
    Simulates b { w with states := w.states.set i st', traffic } s ∨
      ∃ e s', Remote.Step b s e s' ∧
        Simulates b { w with states := w.states.set i st', traffic } s' := by
  obtain ⟨c₀, c', hc₀, hcm, rfl⟩ := Traffic.move_ok hm
  cases hc.symm.trans hc₀
  obtain rfl : { c with handler := .returned j i r } = c' := by
    simpa [Pending.move_handlerReturns hrun] using hcm
  have hplaced := h.sane.placed k c hc
  have hbusy : 0 < c.handler.steps := by simp [hrun, Handler.steps]
  obtain ⟨ι, m, a, hcalls, hk, ha, hl⟩ := h.known hc (by simp [hrun])
  obtain ⟨inst', hinst', hname⟩ := hplaced.instance_of_handler (i := i) (by rw [hrun]; rfl)
  cases hinst.symm.trans hinst'
  refine h.advance (.release m) (.returned r) hcalls hk ha hinst rfl hsane
    (fun hlive => ⟨?_, ?_⟩) fun hdead => ?_
  · refine hl.setHandler hplaced.paired hbusy (by simp [Handler.result]) (by simp [Handler.blocked]) ?_
    intro i' r' _ heq _ _
    cases heq
    rfl
  · have hdst : inst.name = a.dst := hname.trans hl.dst.symm
    have hstage : a.stage = .handled r := hl.blocked i r inst (by rw [hrun]; rfl) hinst hlive
    rw [hdst]
    refine .release ha hstage ?_
    rw [← hdst, h.nodes.live i inst st hinst hst hlive, hl.req, hrelease]
  · refine hl.setHandler hplaced.paired hbusy (by simp [Handler.result]) (by simp [Handler.blocked]) ?_
    intro i' r' inst' heq hinst' hlive
    cases heq
    cases hinst.symm.trans hinst'
    exact absurd hlive hdead

theorem calls_append (wiring : Wiring Q) {config : Config n} {accepted : Nat → Bool} {ι : Nat → Option Nat} {g : Nat}
    {inst : Instance n} {cs : List (Pending (Nat × Fin n) (Fin n) Q R)}
    {as : List (Remote.Call (Fin n) Q R)}
    (h : Correspondence ι (fun k => Linked config (accepted k)) (fun _ => Stale config) cs as)
    (hinst : config.instances[g]? = some inst) (hlive : config.Live inst)
    (reqs : List (Fin n × Q)) :
    ∃ ι', Correspondence ι' (fun k => Linked config (accepted k)) (fun _ => Stale config)
      (cs ++ reqs.map fun (j, q) =>
        { endname := (g, j), svcMeth := wiring.svcMeth q, args := q })
      (as ++ reqs.map fun (j, q) => { src := inst.name, dst := j, req := q }) := by
  refine h.append fun k => ?_
  rw [List.forall₂_map_left_iff, List.forall₂_map_right_iff, List.forall₂_same]
  exact fun ⟨j, q⟩ _ => linked_new hinst hlive _ j _ q

theorem calls_append_dead (wiring : Wiring Q) {config : Config n} {accepted : Nat → Bool} {ι : Nat → Option Nat}
    {g : Nat} {inst : Instance n} {cs : List (Pending (Nat × Fin n) (Fin n) Q R)}
    {as : List (Remote.Call (Fin n) Q R)}
    (h : Correspondence ι (fun k => Linked config (accepted k)) (fun _ => Stale config) cs as)
    (hinst : config.instances[g]? = some inst) (hdead : ¬ config.Live inst)
    (reqs : List (Fin n × Q)) :
    ∃ ι', Correspondence ι' (fun k => Linked config (accepted k)) (fun _ => Stale config)
      (cs ++ reqs.map fun (j, q) =>
        { endname := (g, j), svcMeth := wiring.svcMeth q, args := q }) as := by
  refine (h.append_left fun k c hc => ?_).imp fun _ hι => hι.1
  obtain ⟨⟨j, q⟩, -, rfl⟩ := List.mem_map.mp hc
  exact stale_new hinst hdead j _ q

theorem Simulates.act (h : Simulates b w s) {j : Nat} {act : A} {inst : Instance n} {st st' : σ}
    {d : Option D} {reqs : List (Fin n × Q)} (hinst : w.config.instances[j]? = some inst)
    (hst : w.states[j]? = some st) (hact : b.act inst.name st act = some (st', d, reqs))
    (hw : w' = { w with
      states := w.states.set j st'
      contents := saveRaftState w.contents inst.persister d
      traffic := callAll wiring w.traffic inst.ends reqs }) (hsane : w'.Sane) :
    Simulates b w' s ∨ ∃ e s', Remote.Step b s e s' ∧ Simulates b w' s' := by
  subst hw
  obtain ⟨ι, hcalls⟩ := h.calls
  have hgood := h.sane.good
  have hends := hgood.ends j inst hinst
  by_cases hlive : w.config.Live inst
  · have hnode := h.nodes.live j inst st hinst hst hlive
    refine .inr ⟨_, _, .act (a := act) (i := inst.name) (by rw [hnode, hact]), hsane, ?_, ?_⟩
    · have hset := h.nodes.set hgood hinst hlive st'
      cases d with
      | none => exact hset
      | some d => exact hset.save hgood hinst hlive h.sane.contents d
    · obtain ⟨ι', hcalls'⟩ := calls_append wiring hcalls hinst hlive reqs
      refine ⟨ι', ?_⟩
      simp only [callAll, hends]
      cases d <;> exact hcalls'
  · refine .inl ⟨hsane, ?_, ?_⟩
    · have hset := h.nodes.set_dead hinst hlive st'
      cases d with
      | none => exact hset
      | some d => exact hset.save_dead hgood hinst hlive d
    · simp only [callAll, hends]
      exact calls_append_dead wiring hcalls hinst hlive reqs

theorem Simulates.accept (h : Simulates b w s) {j k : Nat} {inst : Instance n} {st st' : σ} {r : R}
    {c : Pending (Nat × Fin n) (Fin n) Q R} {reqs : List (Fin n × Q)}
    (hc : w.traffic.calls[k]? = some c) (hret : c.phase = .returned (some r))
    (hinst : w.config.instances[j]? = some inst) (hst : w.states[j]? = some st)
    (hends : inst.ends = c.endname.1) (hacc : w.accepted k = false)
    (haccept : b.accept inst.name st c.endname.2 c.args r = some (st', reqs))
    (hw : w' = { w with
      states := w.states.set j st'
      accepted := Function.update w.accepted k true
      traffic := callAll wiring w.traffic inst.ends reqs }) (hsane : w'.Sane) :
    Simulates b w' s ∨ ∃ e s', Remote.Step b s e s' ∧ Simulates b w' s' := by
  subst hw
  have hgood := h.sane.good
  have hplaced := h.sane.placed k c hc
  have hj := hgood.ends j inst hinst
  obtain ⟨j', i, hend⟩ := hplaced.paired.ended_of_message (by rw [hret]; rfl)
  obtain ⟨ι, m, a, hcalls, hk, ha, hl⟩ := h.known hc (by simp [hend])
  have hcaller : w.config.instances[c.endname.1]? = some inst := by rw [← hends, hj, hinst]
  obtain ⟨hsrc, horphan⟩ := hl.src inst hcaller
  have hstage : a.stage = .returned r := hl.message r (by rw [hret]; rfl) hacc
  have hother {k'} (hne : k' ≠ k) : Function.update w.accepted k true k' = w.accepted k' :=
    Function.update_of_ne hne _ _
  by_cases hlive : w.config.Live inst
  · have hnode := h.nodes.live j inst st hinst hst hlive
    have hstep : Remote.Step b s (.accept m)
        (((s.setNode a.src st').setStage m a (.received r)).send a.src reqs) := by
      refine .accept ha hstage (horphan.mpr hlive) ?_
      rw [hsrc, hnode, hl.dst, hl.req, haccept]
    refine .inr ⟨_, _, hstep, hsane, ?_, ?_⟩
    · rw [hsrc]
      exact h.nodes.set hgood hinst hlive st'
    · have hset : Correspondence ι (fun k' => Linked w.config (Function.update w.accepted k true k'))
          (fun _ => Stale w.config) w.traffic.calls (s.calls.set m { a with stage := .received r }) :=
        hcalls.set_right hc hk ha (by simpa using hl.accept hret hplaced.paired)
          fun k' _ _ hne h => by rwa [hother hne]
      simp only [callAll, hj, hsrc]
      exact calls_append wiring hset hinst hlive reqs
  · refine .inl ⟨hsane, h.nodes.set_dead hinst hlive st', ?_⟩
    simp only [callAll, hj]
    refine calls_append_dead wiring (hcalls.imp (fun k' c' a' hc' h' => ?_) fun _ _ _ h => h) hinst hlive
      reqs
    by_cases hne : k' = k
    · subst hne
      cases hc.symm.trans hc'
      simpa using h'.accept hret hplaced.paired
    · rwa [hother hne]

theorem Simulates.command (h : Simulates b w s) {w₁ : World n σ Q R D} {cmd : Command n}
    {rest : List (Command n)} {config : Config n} (htodo : w.todo = cmd :: rest)
    (hran : Ran b wiring w cmd config w₁) (hsane : Sane { w₁ with config, todo := rest }) :
    Simulates b { w₁ with config, todo := rest } s ∨
      ∃ e s', Remote.Step b s e s' ∧ Simulates b { w₁ with config, todo := rest } s' := by
  obtain ⟨ι, hcalls⟩ := h.calls
  have hgood := h.sane.good
  have hpre : w.config.Pre cmd := by
    have hprogram := h.sane.program
    rw [htodo] at hprogram
    exact hprogram.1.2
  -- an instance that was there keeps its place, and lives on unless the command crashes it
  have hframe (hinst : ∀ (j : Nat) (inst : Instance n), w.config.instances[j]? = some inst →
      config.instances[j]? = some inst ∧ (config.Live inst ↔ w.config.Live inst)) :
      Correspondence ι (fun k => Linked config (w.accepted k)) (fun _ => Stale config)
        w.traffic.calls s.calls :=
    hcalls.imp (fun k c a hc hl => hl.frame (h.sane.placed k c hc) hinst) fun k c hc hs =>
      hs.frame (h.sane.placed k c hc) fun j inst hj => ⟨(hinst j inst hj).1, (hinst j inst hj).2.mp⟩
  cases hran with
  | frame hinst hsaved =>
    refine .inl ⟨hsane, h.nodes.frame hinst hsaved, ι, hframe fun j inst hj => ⟨hinst ▸ hj, ?_⟩⟩
    rw [Config.Live, Config.Live, hsaved]
  | @crash i =>
    have hsaved : w.savedState i = s.stored i := (h.nodes.stored i).symm
    refine .inr ⟨.crash i, _, .crash, hsane, ?_, ι, hcalls.map_right (fun k c a hc hl => ?_) |>.imp
      (fun _ _ _ _ h => h) fun k c hc hs => ?_⟩
    · rw [hsaved]
      exact h.nodes.crash hgood h.sane.contents i
    · exact hl.crash (h.sane.placed k c hc) hgood i
    · refine hs.frame (h.sane.placed k c hc) fun j inst hj => ⟨hj, fun hlive => ?_⟩
      have hne : inst.name ≠ i := fun hname => hgood.gone_newSaved j inst hj hname hlive
      exact (Config.live_newSaved hne).mp hlive
  | @renew _ i hgone =>
    have hsaved : w.savedState i = s.stored i := (h.nodes.stored i).symm
    refine .inl ⟨hsane, ?_, ι, hframe fun j inst hj => ⟨hj, ?_⟩⟩
    · rw [hsaved]
      exact h.nodes.renew hgood h.sane.contents (hgone hpre)
    · by_cases hname : inst.name = i
      · exact iff_of_false (hgood.gone_newSaved j inst hj hname) (hgone hpre j inst hj hname)
      · exact Config.live_newSaved hname
  | @make i p g hp hg =>
    have hgone : w.config.Gone i := by
      rintro j inst hj rfl hlive
      exact hpre.2 j inst hj hlive
    have hsaved : w.savedState i = s.stored i := (h.nodes.stored i).symm
    refine .inl ⟨hsane, ?_, ι, hframe fun j inst hj => ⟨Config.getElem?_instances hj, Iff.rfl⟩⟩
    rw [hsaved]
    exact h.nodes.make h.sane.states hgone

theorem Simulates.step (h : Simulates b w s) {ev : Event n A R}
    (hstep : w.step b wiring wire ev = some w') :
    Simulates b w' s ∨ ∃ e s', Remote.Step b s e s' ∧ Simulates b w' s' := by
  have hstepped := step_some hstep
  have hsane := h.sane.step hstepped
  cases hstepped with
  | op => exact .inl ⟨hsane, h.nodes, h.calls⟩
  | command htodo hrun => exact h.command htodo (ran hrun) hsane
  | stop => exact .inl ⟨hsane, h.nodes, h.calls⟩
  | net hint hm => exact .inl (h.net hint hm hsane)
  | act hinst hst hact => exact h.act hinst hst hact rfl hsane
  | handle hc hrun hinst hst hhandle hm => exact h.handle hc hrun hinst hst hhandle hm hsane
  | release hc hrun hinst hst hrelease hm => exact h.release hc hrun hinst hst hrelease hm hsane
  | accept hc hret hinst hst hends hacc haccept =>
    exact h.accept hc hret hinst hst hends hacc haccept rfl hsane

end

/-- What can be seen of the world in the nodes: the state of every live instance, and for every
peer what its next instance would be made from. -/
structure Agrees (w : World n σ Q R D) (s : Remote.State (Fin n) σ Q R D) : Prop where
  live : ∀ (j : Nat) (inst : Instance n) (st : σ), w.config.instances[j]? = some inst →
    w.states[j]? = some st → w.config.Live inst → s.node inst.name = st
  stored : ∀ i, s.stored i = w.savedState i

abbrev Run (b : Remote.Behaviour (Fin n) σ Q R D A) (wiring : Wiring Q) (wire : Wire Q R)
    (ω : List (World n σ Q R D)) : Prop :=
  History.Run World.init (fun w ev w' => w.step b wiring wire ev = some w') ω

theorem Run.refines_remote {w : World n σ Q R D} {ω : List (World n σ Q R D)}
    (hrun : Run b wiring wire (w :: ω)) :
    ∃ s τ, Remote.Run b (s :: τ) ∧ w.Agrees s ∧ ∀ w' ∈ ω, ∃ s' ∈ s :: τ, w'.Agrees s' := by
  have hagrees {w : World n σ Q R D} {s} (h : Simulates b w s) : w.Agrees s :=
    ⟨h.nodes.live, h.nodes.stored⟩
  obtain ⟨s, τ, hτ, hs, hall, -⟩ := History.Run.refines hrun simulates_init
    fun _ _ _ _ h hstep => h.step hstep
  refine ⟨s, τ, hτ, hagrees hs, fun w' hw' => ?_⟩
  obtain ⟨s', hs', hsim⟩ := hall w' hw'
  exact ⟨s', hs', hagrees hsim⟩

def summing : Remote.Behaviour (Fin 2) Nat Nat Nat Nat (Fin 2 × Nat) where
  boot _ saved := saved.getD 0
  act _ st a := some (st + a.2, some (st + a.2), [a])
  handle _ st q := some (st + q, st)
  release _ st _ _ := some st
  accept _ st _ _ r := some (st + r, [])

def summingWiring : Wiring Nat := ⟨fun _ => ['S', '.', 'm'], ['S'], [⟨['m'], true, 3, true, 0⟩]⟩

def one : Fin 2 := ⟨0, Nat.two_pos⟩
def other : Fin 2 := ⟨1, Nat.one_lt_two⟩

def summed : List (Event 2 (Fin 2 × Nat) Nat) :=
  .op (.start1 one) :: List.replicate 17 .command ++
  .op (.start1 other) :: List.replicate 17 .command ++
  .op (.connect one) :: List.replicate 5 .command ++
  .op (.connect other) :: List.replicate 5 .command ++
  [.act 1 (one, 3), .act 0 (other, 5), .net 1 .receive, .net 1 .readEndnameInfo, .net 1 .execute,
    .net 1 .dispatch, .handle 1, .release 1, .net 1 .collect, .net 1 (.check .delivered),
    .net 1 .reply, .accept 0 1, .op (.start1 other)] ++ List.replicate 17 .command

theorem refines_remote_summed :
    ∃ (s : Remote.State (Fin 2) Nat Nat Nat Nat) (τ : List (Remote.State (Fin 2) Nat Nat Nat Nat)),
      Remote.Run summing (s :: τ) ∧ s.node one = 8 ∧ s.node other = 3 := by
  obtain ⟨w, ω, hrun, hinst, hst, hone, hother⟩ := History.exists_trace
    (fun (w : World 2 Nat Nat Nat Nat) e => w.step summing summingWiring ⟨fun _ => 1, fun _ => 1⟩ e)
    (fun _ _ _ h => h) World.init
    (fun ω => ω.head?.map (·.config.instances) =
        some [⟨one, 0, 0⟩, ⟨other, 1, 1⟩, ⟨other, 4, 2⟩] ∧
      ω.head?.map (·.states) = some [8, 8, 3] ∧
      ω.head?.map (·.config.saved one) = some (some 0) ∧
      ω.head?.map (·.config.saved other) = some (some 4)) summed (by decide +kernel)
  obtain ⟨s, τ, hτ, hagrees, -⟩ := Run.refines_remote hrun
  simp only [List.head?_cons, Option.map_some, Option.some.injEq] at hinst hst hone hother
  refine ⟨s, τ, hτ, hagrees.live 0 ⟨one, 0, 0⟩ 8 ?_ ?_ hone,
    hagrees.live 2 ⟨other, 4, 2⟩ 3 ?_ ?_ hother⟩ <;> simp [hinst, hst]

end World

end MrAndRaft.Labrpc
