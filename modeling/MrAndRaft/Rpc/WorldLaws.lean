import MrAndRaft.Rpc.Delivery
import MrAndRaft.Rpc.World

/-! What a step of the deployed program can be, and how its parts fit together: a handler runs on
the instance whose server was asked. -/

namespace MrAndRaft.Labrpc.World

variable {n : Nat} {σ Q R D A : Type} {b : Remote.Behaviour (Fin n) σ Q R D A}
  {wiring : Wiring Q} {wire : Wire Q R}

inductive Stepped (b : Remote.Behaviour (Fin n) σ Q R D A) (wiring : Wiring Q) (wire : Wire Q R)
    (w : World n σ Q R D) : Event n A R → World n σ Q R D → Prop
  | op {o} :
      w.todo = [] → o.allowed w.config → Stepped b wiring wire w (.op o) { w with todo := o.commands }
  | command {cmd rest config} :
      w.todo = cmd :: rest → w.config.run cmd = .ok config →
      Stepped b wiring wire w .command { w.data b wiring cmd with config, todo := rest }
  | stop :
      Stepped b wiring wire w .stop { w with traffic := { w.traffic with listening := false } }
  | net {k m traffic} :
      internal m → w.traffic.move wire w.config.switch k m = .ok traffic →
      Stepped b wiring wire w (.net k m) { w with traffic }
  | act {j a inst st st' d reqs} :
      w.config.instances[j]? = some inst → w.states[j]? = some st →
      b.act inst.name st a = some (st', d, reqs) →
      Stepped b wiring wire w (.act j a) { w with
        states := w.states.set j st'
        contents := saveRaftState w.contents inst.persister d
        traffic := callAll wiring w.traffic inst.ends reqs }
  | handle {k c j i inst st st' r traffic} :
      w.traffic.calls[k]? = some c → c.handler = .running j i →
      w.config.instances[i]? = some inst → w.states[i]? = some st →
      b.handle inst.name st c.args = some (st', r) →
      w.traffic.move wire w.config.switch k (.handle r) = .ok traffic →
      Stepped b wiring wire w (.handle k) { w with states := w.states.set i st', traffic }
  | release {k c j i inst st st' r traffic} :
      w.traffic.calls[k]? = some c → c.handler = .replied j i r →
      w.config.instances[i]? = some inst → w.states[i]? = some st →
      b.release inst.name st c.args r = some st' →
      w.traffic.move wire w.config.switch k .handlerReturns = .ok traffic →
      Stepped b wiring wire w (.release k) { w with states := w.states.set i st', traffic }
  | accept {j k c r inst st st' reqs} :
      w.traffic.calls[k]? = some c → c.phase = .returned (some r) →
      w.config.instances[j]? = some inst → w.states[j]? = some st →
      inst.ends = c.endname.1 → w.accepted k = false →
      b.accept inst.name st c.endname.2 c.args r = some (st', reqs) →
      Stepped b wiring wire w (.accept j k) { w with
        states := w.states.set j st'
        accepted := Function.update w.accepted k true
        traffic := callAll wiring w.traffic inst.ends reqs }

@[simp] theorem length_saveRaftState (contents : List (Option D)) (persister : Nat)
    (d : Option D) : (saveRaftState contents persister d).length = contents.length := by
  cases d <;> simp [saveRaftState]

theorem step_some {w w' : World n σ Q R D} {ev : Event n A R}
    (h : w.step b wiring wire ev = some w') : Stepped b wiring wire w ev w' := by
  cases ev with
  | op o =>
    simp only [step] at h
    split at h
    · rename_i hg
      cases h
      simp only [Bool.and_eq_true, List.isEmpty_iff] at hg
      exact .op hg.1 hg.2
    · cases h
  | command =>
    simp only [step] at h
    split at h
    · cases h
    · obtain ⟨config, hrun, h⟩ := Option.bind_eq_some_iff.mp h
      cases h
      exact .command ‹_› (History.toOption_eq_some hrun)
  | stop =>
    simp only [step] at h
    split at h <;> cases h
    exact .stop
  | net k m =>
    simp only [step] at h
    split at h
    · obtain ⟨traffic, hmove, h⟩ := Option.bind_eq_some_iff.mp h
      cases h
      exact .net ‹_› (History.toOption_eq_some hmove)
    · cases h
  | act j a =>
    obtain ⟨inst, hinst, h⟩ := Option.bind_eq_some_iff.mp h
    obtain ⟨st, hst, h⟩ := Option.bind_eq_some_iff.mp h
    obtain ⟨⟨st', d, reqs⟩, hact, h⟩ := Option.bind_eq_some_iff.mp h
    cases h
    exact .act hinst hst hact
  | handle k =>
    obtain ⟨c, hc, h⟩ := Option.bind_eq_some_iff.mp h
    split at h
    · obtain ⟨inst, hinst, h⟩ := Option.bind_eq_some_iff.mp h
      obtain ⟨st, hst, h⟩ := Option.bind_eq_some_iff.mp h
      obtain ⟨⟨st', r⟩, hhandle, h⟩ := Option.bind_eq_some_iff.mp h
      obtain ⟨traffic, hmove, h⟩ := Option.bind_eq_some_iff.mp h
      cases h
      exact .handle hc ‹_› hinst hst hhandle (History.toOption_eq_some hmove)
    · cases h
  | release k =>
    obtain ⟨c, hc, h⟩ := Option.bind_eq_some_iff.mp h
    split at h
    · obtain ⟨inst, hinst, h⟩ := Option.bind_eq_some_iff.mp h
      obtain ⟨st, hst, h⟩ := Option.bind_eq_some_iff.mp h
      obtain ⟨st', hrelease, h⟩ := Option.bind_eq_some_iff.mp h
      obtain ⟨traffic, hmove, h⟩ := Option.bind_eq_some_iff.mp h
      cases h
      exact .release hc ‹_› hinst hst hrelease (History.toOption_eq_some hmove)
    · cases h
  | accept j k =>
    obtain ⟨c, hc, h⟩ := Option.bind_eq_some_iff.mp h
    split at h
    · obtain ⟨inst, hinst, h⟩ := Option.bind_eq_some_iff.mp h
      obtain ⟨st, hst, h⟩ := Option.bind_eq_some_iff.mp h
      split at h
      · rename_i hg
        obtain ⟨⟨st', reqs⟩, haccept, h⟩ := Option.bind_eq_some_iff.mp h
        cases h
        simp only [Bool.and_eq_true, decide_eq_true_eq, Bool.not_eq_true'] at hg
        exact .accept hc ‹_› hinst hst hg.1 hg.2 haccept
      · cases h
    · cases h

structure Placed (config : Config n) (c : Pending (Nat × Fin n) (Fin n) Q R) : Prop where
  paired : Paired c.phase c.handler
  caller : ∃ inst, config.instances[c.endname.1]? = some inst
  routed : ∀ info, c.phase.info = some info → info.servername = c.endname.2 ∧
    ∃ inst, config.instances[info.server]? = some inst ∧ inst.name = c.endname.2
  server : ∀ j, c.handler.server = some j →
    ∃ inst, config.instances[j]? = some inst ∧ inst.name = c.endname.2
  rcvr : ∀ i, c.handler.rcvr = some i → c.handler.server = some i

def Offers (pool : List Server) : Prop :=
  ∀ (j : Nat) (rs : Server) (svcMeth : Name) (i : Nat), pool[j]? = some rs →
    rs.dispatch svcMeth = some i → i = j

theorem Placed.move {config : Config n} {t : Traffic (Nat × Fin n) (Fin n) Q R}
    {c c' : Pending (Nat × Fin n) (Fin n) Q R} {m : Move R} (h : Placed config c)
    (hgood : config.Good) (hpool : Offers t.pool) (hm : c.move config.switch t m = .ok c') :
    Placed config c' := by
  obtain ⟨he, -, -, hmoved⟩ := Pending.move_ok hm
  refine ⟨hmoved.paired h.paired, he ▸ h.caller, fun info hinfo => ?_, fun j hj => ?_,
    fun i hi => ?_⟩
  · rw [he]
    rcases hmoved.info hinfo with hold | ⟨-, hserves, hconn, -⟩
    · exact h.routed info hold
    · have hname := hgood.connections c.endname.1 c.endname.2 _ hconn
      obtain ⟨inst, hinst, hinst', -⟩ := hgood.served _ _ hserves.servers
      exact ⟨hname, inst, hinst, hinst'.trans hname⟩
  · rw [he]
    rcases hmoved.server hj with hold | ⟨info, hinfo, rfl⟩
    · exact h.server j hold
    · exact (h.routed info hinfo).2
  · rcases hmoved.rcvr hi with ⟨hold, hsrv⟩ | ⟨j, rs, hj, hrs, hdisp⟩
    · rw [hsrv]
      exact h.rcvr i hold
    · rw [hj, hpool j rs _ i hrs hdisp]

inductive Ran (b : Remote.Behaviour (Fin n) σ Q R D A) (wiring : Wiring Q) (w : World n σ Q R D) :
    Command n → Config n → World n σ Q R D → Prop
  | frame {cmd config} :
      config.instances = w.config.instances → config.saved = w.config.saved →
      config.persisters = w.config.persisters → Ran b wiring w cmd config w
  | crash {i} :
      w.config.saved i ≠ none →
      Ran b wiring w (.copySaved i) (w.config.newSaved i)
        { w with contents := w.contents ++ [w.savedState i] }
  | renew {cmd i} :
      (w.config.Pre cmd → w.config.Gone i) →
      Ran b wiring w cmd (w.config.newSaved i)
        { w with contents := w.contents ++ [w.savedState i] }
  | make {i p g} :
      w.config.saved i = some p → w.config.endnames i = some g →
      Ran b wiring w (.make i)
        { w.config with
          rafts := Function.update w.config.rafts i (some w.config.instances.length)
          instances := w.config.instances ++ [⟨i, p, g⟩] }
        { w with
          states := w.states ++ [b.boot i (w.savedState i)]
          traffic := { w.traffic with pool := w.traffic.pool ++
            [makeServer.addService (makeService wiring.service w.states.length wiring.methods)] } }

theorem admin_frame {c c' : Config n} {a : Admin (Nat × Fin n) (Fin n)} (h : c.admin a = .ok c') :
    c'.instances = c.instances ∧ c'.saved = c.saved ∧ c'.persisters = c.persisters := by
  unfold Config.admin at h
  cases hsw : c.switch.admin a with
  | error x => simp [hsw, Except.map] at h
  | ok sw =>
    rw [hsw] at h
    cases h
    exact ⟨rfl, rfl, rfl⟩

theorem ran {w : World n σ Q R D} {cmd : Command n} {config : Config n}
    (h : w.config.run cmd = .ok config) : Ran b wiring w cmd config (w.data b wiring cmd) := by
  have hadmin {a} (h : w.config.admin a = .ok config) : Ran b wiring w cmd config w := by
    obtain ⟨h₁, h₂, h₃⟩ := admin_frame h
    exact .frame h₁ h₂ h₃
  cases cmd with
  | setConnected | kill | drawEndnames =>
    cases h
    exact .frame rfl rfl rfl
  | enableOutgoing i j | enableIncoming i j =>
    simp only [Config.run] at h
    split at h
    · obtain ⟨g, -, h⟩ := Config.endname_bind h
      exact hadmin h
    · cases h
      exact .frame rfl rfl rfl
  | disableOutgoing i j | disableIncoming i j =>
    simp only [Config.run] at h
    split at h
    · exact hadmin h
    · cases h
      exact .frame rfl rfl rfl
  | deleteServer | admin => exact hadmin h
  | copySaved i =>
    cases h
    simp only [data]
    split
    · exact .frame rfl rfl rfl
    · exact .crash ‹_›
  | renewSaved i =>
    cases h
    simp only [data]
    split
    · exact .frame rfl rfl rfl
    · exact .renew fun h => h
  | makeEnd i j | connectEnd i j =>
    obtain ⟨g, -, h⟩ := Config.endname_bind h
    exact hadmin h
  | makePersister i =>
    cases h
    exact .renew fun h => h
  | make i =>
    simp only [Config.run] at h
    split at h <;> cases h
    exact .make ‹_› ‹_›
  | addServer i =>
    simp only [Config.run] at h
    split at h
    · exact hadmin h
    · cases h

structure Sane (w : World n σ Q R D) : Prop where
  program : Program.Along Config.run (fun c cmd => c.Good ∧ c.Pre cmd) Config.Idle w.todo w.config
  states : w.states.length = w.config.instances.length
  contents : w.contents.length = w.config.persisters
  offers : Offers w.traffic.pool
  servers : w.traffic.pool.length = w.config.instances.length
  placed : ∀ (k : Nat) (c : Pending (Nat × Fin n) (Fin n) Q R), w.traffic.calls[k]? = some c →
    Placed w.config c
  accepted : ∀ k, w.accepted k → ∃ c r, w.traffic.calls[k]? = some c ∧ c.phase = .returned (some r)

theorem Sane.good {w : World n σ Q R D} (h : w.Sane) : w.config.Good :=
  h.program.now (fun _ _ h => h.1) fun _ h => h.good

theorem sane_init : (World.init : World n σ Q R D).Sane where
  program := Config.idle_init
  states := rfl
  contents := rfl
  offers := by simp [World.init, Offers, Traffic.make]
  servers := rfl
  placed := by simp [World.init, Traffic.make]
  accepted := by simp [World.init]

theorem Placed.mono {config config' : Config n} {c : Pending (Nat × Fin n) (Fin n) Q R}
    (h : Placed config c)
    (hinst : ∀ (j : Nat) (inst : Instance n), config.instances[j]? = some inst →
      config'.instances[j]? = some inst) : Placed config' c where
  paired := h.paired
  caller := h.caller.imp fun inst => hinst _ inst
  routed info hinfo := by
    obtain ⟨hname, inst, hj, hrest⟩ := h.routed info hinfo
    exact ⟨hname, inst, hinst _ inst hj, hrest⟩
  server j hj := by
    obtain ⟨inst, hj, hrest⟩ := h.server j hj
    exact ⟨inst, hinst _ inst hj, hrest⟩
  rcvr := h.rcvr

theorem read_newSaved {config : Config n} {contents : List (Option D)} (hgood : config.Good)
    (hlen : contents.length = config.persisters) (i i' : Fin n) :
    (((config.newSaved i).saved i').bind fun p =>
        (contents ++ [(config.saved i).bind fun p => contents.getD p none]).getD p none) =
      (config.saved i').bind fun p => contents.getD p none := by
  by_cases hi : i' = i
  · simp [hi, Config.newSaved, List.getD, ← hlen]
  · rw [show (config.newSaved i).saved i' = config.saved i' by simp [Config.newSaved, hi]]
    cases hp : config.saved i' with
    | none => rfl
    | some p =>
      have hlt : p < contents.length := hlen ▸ hgood.persisters.saved_lt i' p hp
      simp [List.getD, List.getElem?_append_left hlt]

/-- What an instance saves is found by its own peer or by none. -/
theorem read_saveRaftState {config : Config n} {contents : List (Option D)} (hgood : config.Good)
    {j : Nat} {inst : Instance n} (hinst : config.instances[j]? = some inst) {d : Option D}
    {i : Fin n} {x : D}
    (h : ((config.saved i).bind fun p => (saveRaftState contents inst.persister d).getD p none) =
      some x) :
    ((config.saved i).bind fun p => contents.getD p none) = some x ∨ inst.name = i ∧ d = some x := by
  cases d with
  | none => exact .inl h
  | some y =>
    obtain ⟨p, hp, h⟩ := Option.bind_eq_some_iff.mp h
    simp only [saveRaftState, List.getD, List.getElem?_set] at h
    split at h
    · subst ‹inst.persister = p›
      split at h
      · cases h
        exact .inr ⟨hgood.persisters.belongs i j inst hinst hp, rfl⟩
      · cases h
    · exact .inl (Option.bind_eq_some_iff.mpr ⟨p, hp, h⟩)

theorem placed_new {config : Config n} {g : Nat} {inst : Instance n}
    (h : config.instances[g]? = some inst) (j : Fin n) (svcMeth : Name) (args : Q) :
    Placed (R := R) config { endname := (g, j), svcMeth, args } where
  paired := rfl
  caller := ⟨inst, h⟩
  routed := by simp [Phase.info]
  server := by simp [Handler.server]
  rcvr := by simp [Handler.rcvr]

theorem offers_move {sw : Switch (Nat × Fin n) (Fin n)} {t t' : Traffic (Nat × Fin n) (Fin n) Q R}
    {k : Nat} {m : Move R} (h : Offers t.pool) (hm : t.move wire sw k m = .ok t') :
    Offers t'.pool := by
  obtain ⟨c, c', -, -, rfl⟩ := Traffic.move_ok hm
  intro j rs svcMeth i hrs hdisp
  obtain ⟨rs₀, hrs₀, hsvc⟩ := Traffic.exists_of_tally hrs
  exact h j rs₀ svcMeth i hrs₀ (by rw [Server.dispatch_congr hsvc, hdisp])

theorem Sane.move {w : World n σ Q R D} {k : Nat} {m : Move R} {states : List σ}
    {traffic : Traffic (Nat × Fin n) (Fin n) Q R} (h : w.Sane)
    (hstates : states.length = w.states.length)
    (hm : w.traffic.move wire w.config.switch k m = .ok traffic) :
    Sane { w with states, traffic } where
  program := h.program
  states := hstates.trans h.states
  contents := h.contents
  offers := offers_move h.offers hm
  servers := by
    obtain ⟨c, c', -, -, rfl⟩ := Traffic.move_ok hm
    simpa [Traffic.tally_pool_length] using h.servers
  placed k' c hc := by
    obtain ⟨c₀, c', hc₀, hcm, rfl⟩ := Traffic.move_ok hm
    rcases Position.of_set hc with ⟨rfl, rfl⟩ | ⟨-, hc⟩
    · exact (h.placed _ c₀ hc₀).move h.good h.offers hcm
    · exact h.placed k' c hc
  accepted k' hk' := by
    obtain ⟨c₀, c', hc₀, hcm, rfl⟩ := Traffic.move_ok hm
    obtain ⟨c, r, hc, hret⟩ := h.accepted k' hk'
    by_cases hk : k = k'
    · subst hk
      cases hc.symm.trans hc₀
      have hmoved := (Pending.move_ok hcm).2.2.2
      rw [hret] at hmoved
      exact ⟨c', r, List.getElem?_set_self (List.getElem?_eq_some_iff.mp hc).1, hmoved.returned⟩
    · exact ⟨c, r, by rw [List.getElem?_set_ne hk, hc], hret⟩

theorem Sane.call {w : World n σ Q R D} {g : Nat} {inst : Instance n} (h : w.Sane)
    (hinst : w.config.instances[g]? = some inst) {states : List σ} {contents : List (Option D)}
    {accepted : Nat → Bool} (reqs : List (Fin n × Q)) (hstates : states.length = w.states.length)
    (hcontents : contents.length = w.contents.length)
    (haccepted : ∀ k, accepted k → ∃ c r, w.traffic.calls[k]? = some c ∧
      c.phase = .returned (some r)) :
    Sane { w with
      states, contents, accepted
      traffic := callAll wiring w.traffic inst.ends reqs } where
  program := h.program
  states := hstates.trans h.states
  contents := hcontents.trans h.contents
  offers := h.offers
  servers := h.servers
  placed k c hc := by
    rcases Position.of_append hc with hc | ⟨-, hc⟩
    · exact h.placed k c hc
    · obtain ⟨⟨j, q⟩, -, rfl⟩ := List.mem_map.mp hc
      rw [h.good.ends g inst hinst]
      exact placed_new hinst j _ q
  accepted k hk := by
    obtain ⟨c, r, hc, hret⟩ := haccepted k hk
    refine ⟨c, r, ?_, hret⟩
    exact (List.getElem?_append_left (List.getElem?_eq_some_iff.mp hc).1).trans hc

theorem offers_concat {pool : List Server} (h : Offers pool) (svc : Service)
    (hsvc : svc.rcvr = pool.length) : Offers (pool ++ [makeServer.addService svc]) := by
  intro j rs svcMeth i hrs hdisp
  rcases Position.of_concat hrs with hrs | ⟨rfl, rfl⟩
  · exact h j rs svcMeth i hrs hdisp
  · unfold Server.dispatch at hdisp
    split at hdisp
    · cases hdisp
    · rename_i serviceName methodName _
      by_cases hname : serviceName = svc.name
      · simp only [Server.addService, hname, Function.update_self] at hdisp
        split at hdisp <;> cases hdisp
        exact hsvc
      · simp [Server.addService, makeServer, hname] at hdisp

theorem Sane.command {w w₁ : World n σ Q R D} {cmd : Command n} {rest : List (Command n)}
    {config : Config n} (h : w.Sane) (htodo : w.todo = cmd :: rest)
    (hrun : w.config.run cmd = .ok config) (hran : Ran b wiring w cmd config w₁) :
    Sane { w₁ with config, todo := rest } := by
  have hprogram := h.program
  rw [htodo] at hprogram
  have hrest := hprogram.2 config hrun
  cases hran with
  | frame hinst hsaved hpers =>
    refine ⟨hrest, ?_, ?_, h.offers, ?_, fun k c hc => ?_, h.accepted⟩
    · exact h.states.trans (congrArg List.length hinst.symm)
    · exact h.contents.trans hpers.symm
    · exact h.servers.trans (congrArg List.length hinst.symm)
    · exact (h.placed k c hc).mono fun j inst hj => hinst ▸ hj
  | crash | renew =>
    refine ⟨hrest, h.states, ?_, h.offers, h.servers, fun k c hc => ?_, h.accepted⟩
    · simp [Config.newSaved, h.contents]
    · exact (h.placed k c hc).mono fun _ _ hj => hj
  | make =>
    refine ⟨hrest, ?_, h.contents, ?_, ?_, fun k c hc => ?_, h.accepted⟩
    · simp [h.states]
    · exact offers_concat h.offers _ (h.states.trans h.servers.symm)
    · simp [h.servers]
    · exact (h.placed k c hc).mono fun _ _ hj => Config.getElem?_instances hj

theorem Sane.step {w w' : World n σ Q R D} {ev : Event n A R} (h : w.Sane)
    (hstep : Stepped b wiring wire w ev w') : w'.Sane := by
  cases hstep with
  | @op o htodo hallowed =>
    have hidle := h.program
    rw [htodo] at hidle
    exact { h with program := Config.spec_commands o w.config ⟨hidle, hallowed⟩ }
  | command htodo hrun => exact h.command htodo hrun (ran hrun)
  | stop => exact ⟨h.program, h.states, h.contents, h.offers, h.servers, h.placed, h.accepted⟩
  | net _ hm => exact h.move rfl hm
  | act hinst =>
    exact h.call hinst _ (by simp) (length_saveRaftState _ _ _) h.accepted
  | handle _ _ _ _ _ hm => exact h.move (by simp) hm
  | release _ _ _ _ _ hm => exact h.move (by simp) hm
  | @accept j k c r inst st st' reqs hc hret hinst =>
    refine h.call hinst _ (by simp) rfl fun k' hk' => ?_
    by_cases hk : k' = k
    · exact hk ▸ ⟨c, r, hc, hret⟩
    · exact h.accepted k' (by simpa [hk] using hk')

end MrAndRaft.Labrpc.World
