import MrAndRaft.Rpc.ConfigLaws

/-! `connect`, `disconnect`, `crash1` and `start1`, command by command. -/

namespace MrAndRaft.Labrpc.Config

open Program

variable {n : Nat} {c c' : Config n} {i : Fin n}

structure Idle (c : Config n) : Prop where
  good : c.Good
  rafts : ∀ i j, c.rafts i = some j → c.endnames i = some j ∧
    ∃ inst, c.instances[j]? = some inst ∧ inst.name = i ∧ c.Live inst
  connected : ∀ i, c.connected i → (c.rafts i).isSome
  live : ∀ (j : Nat) (inst : Instance n), c.instances[j]? = some inst → c.Live inst →
    c.rafts inst.name = some j

structure Down (i : Fin n) (c : Config n) : Prop where
  good : c.Good
  rafts : ∀ i' j, i' ≠ i → c.rafts i' = some j → c.endnames i' = some j ∧
    ∃ inst, c.instances[j]? = some inst ∧ inst.name = i' ∧ c.Live inst
  connected : ∀ i', c.connected i' → i' ≠ i ∧ (c.rafts i').isSome
  live : ∀ (j : Nat) (inst : Instance n), c.instances[j]? = some inst → c.Live inst →
    inst.name ≠ i ∧ c.rafts inst.name = some j

abbrev Spec (P : Config n → Prop) (cs : List (Command n)) (Q : Config n → Prop) : Prop :=
  Triple Config.run (fun c cmd => c.Good ∧ c.Pre cmd) P cs Q

theorem Spec.single {P Q : Config n → Prop} {cmd : Command n} (hgood : ∀ c, P c → c.Good)
    (hpre : ∀ c, P c → c.Pre cmd)
    (hrun : ∀ c c', P c → c'.Good → c.run cmd = .ok c' → Q c') : Spec P [cmd] Q :=
  Triple.single (fun c hc => ⟨hgood c hc, hpre c hc⟩)
    fun c c' hc h => hrun c c' hc ((hgood c hc).run (hpre c hc) h) h

theorem Down.gone (h : Down i c) : c.Gone i :=
  fun j inst hj hname hlive => (h.live j inst hj hlive).1 hname

theorem Down.idle (h : Down i c) (hnone : c.rafts i = none) : c.Idle where
  good := h.good
  rafts i' j hj := by
    refine h.rafts i' j ?_ hj
    rintro rfl
    exact absurd (hnone.symm.trans hj) (by simp)
  connected i' hi' := (h.connected i' hi').2
  live j inst hj hlive := (h.live j inst hj hlive).2

theorem Idle.switch (h : c.Idle) {sw : Switch (Nat × Fin n) (Fin n)}
    (hgood : Good { c with switch := sw }) : Idle { c with switch := sw } :=
  ⟨hgood, h.rafts, h.connected, h.live⟩

theorem Down.switch (h : Down i c) {sw : Switch (Nat × Fin n) (Fin n)}
    (hgood : Good { c with switch := sw }) : Down i { c with switch := sw } :=
  ⟨hgood, h.rafts, h.connected, h.live⟩

theorem Idle.down (h : c.Idle) (hcon : c.connected i = false) (hgone : c.Gone i) : Down i c where
  good := h.good
  rafts i' j _ hj := h.rafts i' j hj
  connected i' hi' := by
    refine ⟨?_, h.connected i' hi'⟩
    rintro rfl
    simp [hcon] at hi'
  live j inst hj hlive := ⟨fun hname => hgone j inst hj hname hlive, h.live j inst hj hlive⟩

theorem Idle.newSaved (h : c.Idle) (hcon : c.connected i = false) (hgood : (c.newSaved i).Good) :
    Down i (c.newSaved i) where
  good := hgood
  rafts i' j hi hj := by
    obtain ⟨hends, inst, hinst, hname, hlive⟩ := h.rafts i' j hj
    exact ⟨hends, inst, hinst, hname, (live_newSaved (hname ▸ hi)).mpr hlive⟩
  connected i' hi' := by
    refine ⟨?_, h.connected i' hi'⟩
    rintro rfl
    exact absurd (hcon.symm.trans hi') (by simp)
  live j inst hj hlive := by
    have hne : inst.name ≠ i := fun hname => h.good.gone_newSaved j inst hj hname hlive
    exact ⟨hne, h.live j inst hj ((live_newSaved hne).mp hlive)⟩

theorem Down.disconnected (h : Down i c) : c.connected i = false := by
  cases hi : c.connected i with
  | false => rfl
  | true => exact absurd rfl (h.connected i hi).1

theorem gone_of_unsaved (h : c.saved i = none) : c.Gone i := by
  rintro j inst - rfl hlive
  exact absurd (h.symm.trans hlive) (by simp)

structure Hushed (i : Fin n) (done : List (Fin n)) (c : Config n) : Prop where
  idle : c.Idle
  disconnected : c.connected i = false
  silent : ∀ (g : Nat) (t : Fin n) (inst : Instance n), t ∈ done → c.switch.enabled (g, t) →
    c.instances[g]? = some inst → inst.name ≠ i

theorem spec_disableOutgoing (done : List (Fin n)) (j : Fin n) :
    Spec (Hushed i done) [.disableOutgoing i j] (Hushed i (done ++ [j])) := by
  refine Spec.single (fun c h => h.idle.good) (fun c _ => trivial) fun c c' h hgood hrun => ?_
  have hends {g t inst} (hen : c.switch.enabled (g, t)) (hinst : c.instances[g]? = some inst)
      (hname : inst.name = i) : c.endnames i = some g := by
    obtain ⟨inst', hinst', hlive⟩ := h.idle.good.enabled g t hen
    cases hinst.symm.trans hinst'
    exact (h.idle.rafts i g (hname ▸ h.idle.live g inst hinst hlive)).1
  simp only [Config.run] at hrun
  split at hrun <;> cases hrun
  · rename_i g₀ hg₀
    refine ⟨h.idle.switch hgood, h.disconnected, fun g t inst ht hen hinst hname => ?_⟩
    by_cases he : (g, t) = (g₀, j)
    · simp [he] at hen
    · have hen' : c.switch.enabled (g, t) := by simpa [he] using hen
      obtain rfl := Option.some.inj (hg₀.symm.trans (hends hen' hinst hname))
      have ht' : t ∈ done := by
        rcases List.mem_append.mp ht with ht | ht
        · exact ht
        · exact absurd (by simp [List.mem_singleton.mp ht]) he
      exact h.silent g₀ t inst ht' hen' hinst hname
  · refine ⟨h.idle, h.disconnected, fun g t inst _ hen hinst hname => ?_⟩
    exact absurd (hends hen hinst hname) (by simp [*])

theorem spec_disableIncoming (l : List (Fin n)) (j : Fin n) :
    Spec (Hushed i l) [.disableIncoming i j] (Hushed i l) := by
  refine Spec.single (fun c h => h.idle.good) (fun c _ => trivial) fun c c' h hgood hrun => ?_
  simp only [Config.run] at hrun
  split at hrun <;> cases hrun
  · rename_i g₀ hg₀
    refine ⟨h.idle.switch hgood, h.disconnected, fun g t inst ht hen => ?_⟩
    by_cases he : (g, t) = (g₀, i)
    · simp [he] at hen
    · exact h.silent g t inst ht (by simpa [he] using hen)
  · exact h

theorem spec_disconnect (i : Fin n) :
    Spec Idle (disconnect i) fun c => c.Idle ∧ c.connected i = false ∧ c.Silent i := by
  refine Triple.cons (T := Hushed i []) ?_ (Triple.append (T := Hushed i (List.finRange n)) ?_ ?_)
  · refine Spec.single (fun c h => h.good) (fun c _ => trivial) fun c c' h hgood hrun => ?_
    cases hrun
    refine ⟨⟨hgood, h.rafts, fun i' hi' => ?_, h.live⟩, by simp, by simp⟩
    by_cases hi : i' = i
    · simp [hi] at hi'
    · exact h.connected i' (by simpa [hi] using hi')
  · exact Triple.map _ fun done j => spec_disableOutgoing done j
  · refine (Triple.map (fun _ => Hushed i (List.finRange n)) fun _ j =>
      spec_disableIncoming _ j).imp (fun _ h => h) fun c h => ⟨h.idle, h.disconnected, ?_⟩
    exact fun g t inst => h.silent g t inst (List.mem_finRange t)

theorem spec_crash1 (i : Fin n) :
    Spec Idle (crash1 i) fun c => Down i c ∧ c.rafts i = none := by
  refine Triple.append (spec_disconnect i) (Triple.cons
    (T := fun c => (c.Idle ∧ c.connected i = false ∧ c.Silent i) ∧ c.switch.servers i = none) ?_
    (Triple.cons (T := Down i) ?_ (Triple.cons (T := fun c => Down i c ∧ c.rafts i = none) ?_ ?_)))
  · refine Spec.single (fun c h => h.1.good) (fun c _ => trivial) fun c c' h hgood hrun => ?_
    cases hrun
    exact ⟨⟨h.1.switch hgood, h.2⟩, by simp⟩
  · refine Spec.single (fun c h => h.1.1.good) (fun c h => ⟨h.2, h.1.2.2⟩)
      fun c c' h hgood hrun => ?_
    cases hrun
    split at hgood
    · rw [if_pos ‹_›]
      exact h.1.1.down h.1.2.1 (gone_of_unsaved ‹_›)
    · rw [if_neg ‹_›]
      exact h.1.1.newSaved h.1.2.1 hgood
  · refine Spec.single (fun c h => h.good) (fun c _ => trivial) fun c c' h hgood hrun => ?_
    cases hrun
    refine ⟨⟨hgood, fun i' j hi hj => ?_, fun i' hi' => ?_, fun j inst hj hlive => ?_⟩, by simp⟩
    · exact h.rafts i' j hi (by simpa [hi] using hj)
    · obtain ⟨hi, hsome⟩ := h.connected i' hi'
      exact ⟨hi, by simpa [hi] using hsome⟩
    · obtain ⟨hne, hraft⟩ := h.live j inst hj hlive
      exact ⟨hne, by simpa [hne] using hraft⟩
  · refine Spec.single (fun c h => h.1.good) (fun c h => h.1.gone) fun c c' h hgood hrun => ?_
    cases hrun
    split at hgood
    · rw [if_pos ‹_›]
      exact h
    · rw [if_neg ‹_›]
      exact ⟨(h.1.idle h.2).newSaved h.1.disconnected hgood, h.2⟩

structure Starting (i : Fin n) (c : Config n) : Prop where
  down : Down i c
  none : c.rafts i = none
  drawn : c.endnames i = some c.instances.length

theorem Starting.switch (h : Starting i c) {sw : Switch (Nat × Fin n) (Fin n)}
    (hgood : Good { c with switch := sw }) : Starting i { c with switch := sw } :=
  ⟨h.down.switch hgood, h.none, h.drawn⟩

theorem Starting.made (h : Starting i c) {p : Nat} (hp : c.saved i = some p)
    (hgood : Good { c with
      rafts := Function.update c.rafts i (some c.instances.length)
      instances := c.instances ++ [⟨i, p, c.instances.length⟩] }) :
    Idle { c with
      rafts := Function.update c.rafts i (some c.instances.length)
      instances := c.instances ++ [⟨i, p, c.instances.length⟩] } where
  good := hgood
  rafts i' j hj := by
    by_cases hi : i' = i
    · subst hi
      obtain rfl : c.instances.length = j := by simpa using hj
      exact ⟨h.drawn, ⟨i', p, c.instances.length⟩, by simp, rfl, hp⟩
    · obtain ⟨hends, inst, hinst, hrest⟩ := h.down.rafts i' j hi (by simpa [hi] using hj)
      exact ⟨hends, inst, getElem?_instances hinst, hrest⟩
  connected i' hi' := by
    obtain ⟨hi, hsome⟩ := h.down.connected i' hi'
    simpa [hi] using hsome
  live j inst hj hlive := by
    rcases Position.of_concat hj with hj | ⟨rfl, rfl⟩
    · obtain ⟨hne, hraft⟩ := h.down.live j inst hj hlive
      simpa [hne] using hraft
    · simp

theorem spec_ends (i : Fin n) :
    Spec (Starting i)
      ((List.finRange n).flatMap fun j => [Command.makeEnd i j, Command.connectEnd i j])
      (Starting i) := by
  refine Triple.flatMap (fun _ => Starting i) fun _ j => Triple.cons (T := Starting i) ?_ ?_
  · refine Spec.single (fun c h => h.down.good) (fun c _ => trivial) fun c c' h hgood hrun => ?_
    obtain ⟨g, hg, hrun⟩ := endname_bind hrun
    simp only [Config.admin, Switch.admin] at hrun
    split at hrun <;> cases hrun
    exact h.switch hgood
  · refine Spec.single (fun c h => h.down.good) (fun c _ => trivial) fun c c' h hgood hrun => ?_
    obtain ⟨g, hg, hrun⟩ := endname_bind hrun
    cases hrun
    exact h.switch hgood

theorem spec_start1 (i : Fin n) : Spec Idle (start1 i) Idle := by
  refine Triple.append (spec_crash1 i) (Triple.cons (T := Starting i) ?_
    (Triple.append (spec_ends i) (Triple.cons (T := fun c => Starting i c ∧
      c.saved i ≠ Option.none ∧ ∀ (j : Nat) (inst : Instance n), c.instances[j]? = some inst →
        c.saved i ≠ some inst.persister) ?_ (Triple.cons (T := Idle) ?_ ?_))))
  · refine Spec.single (fun c h => h.1.good) (fun c _ => trivial) fun c c' h hgood hrun => ?_
    cases hrun
    refine ⟨⟨hgood, fun i' j hi hj => ?_, h.1.connected, h.1.live⟩, h.2, by simp⟩
    obtain ⟨hends, hinst⟩ := h.1.rafts i' j hi hj
    exact ⟨by simpa [hi] using hends, hinst⟩
  · refine Spec.single (fun c h => h.down.good) (fun c h => h.down.gone)
      fun c c' h hgood hrun => ?_
    cases hrun
    refine ⟨⟨(h.down.idle h.none).newSaved h.down.disconnected hgood, h.none, h.drawn⟩, by
      simp [Config.newSaved], fun j inst hj => ?_⟩
    have := h.down.good.persisters.owned j inst hj
    simp only [Config.newSaved, Function.update_self, ne_eq, Option.some.injEq]
    omega
  · refine Spec.single (fun c h => h.1.down.good) (fun c h => ⟨h.1.drawn, h.2.2⟩)
      fun c c' h hgood hrun => ?_
    simp only [Config.run] at hrun
    split at hrun <;> cases hrun
    rename_i p g hp hg
    obtain rfl : g = c.instances.length := Option.some.inj (hg.symm.trans h.1.drawn)
    exact h.1.made hp hgood
  · refine Spec.single (fun c h => h.good) (fun c h j hj => (h.rafts i j hj).2)
      fun c c' h hgood hrun => ?_
    simp only [Config.run] at hrun
    split at hrun <;> cases hrun
    exact h.switch hgood

theorem enable_switch {b : Bool} {j : Fin n}
    (h : (if b then (c.endname i j).bind fun e => c.admin (.enable e true) else .ok c) = .ok c') :
    ∃ sw, c' = { c with switch := sw } := by
  split at h
  · obtain ⟨g, -, h⟩ := endname_bind h
    cases h
    exact ⟨_, rfl⟩
  · cases h
    exact ⟨_, rfl⟩

theorem spec_enable {cmd : Command n}
    (hpre : ∀ c : Config n, c.Idle → (c.rafts i).isSome → c.Pre cmd)
    (hrun : ∀ c c' : Config n, c.run cmd = .ok c' → ∃ sw, c' = { c with switch := sw }) :
    Spec (fun c => c.Idle ∧ (c.rafts i).isSome) [cmd] fun c => c.Idle ∧ (c.rafts i).isSome := by
  refine Spec.single (fun c h => h.1.good) (fun c h => hpre c h.1 h.2) fun c c' h hgood hr => ?_
  obtain ⟨sw, rfl⟩ := hrun c c' hr
  exact ⟨h.1.switch hgood, h.2⟩

theorem Idle.owner (h : c.Idle) (hsome : (c.rafts i).isSome) {g : Nat}
    (hg : c.endnames i = some g) : ∃ inst, c.instances[g]? = some inst ∧ c.Live inst := by
  obtain ⟨rf, hrf⟩ := Option.isSome_iff_exists.mp hsome
  obtain ⟨hends, inst, hinst, -, hlive⟩ := h.rafts i rf hrf
  cases hg.symm.trans hends
  exact ⟨inst, hinst, hlive⟩

theorem spec_connect (i : Fin n) :
    Spec (fun c => c.Idle ∧ (c.rafts i).isSome) (connect i) Idle := by
  let T (c : Config n) : Prop := c.Idle ∧ (c.rafts i).isSome
  have hset : Spec T [.setConnected i true] T := by
    refine Spec.single (fun c h => h.1.good) (fun c _ => trivial) fun c c' h hgood hrun => ?_
    cases hrun
    refine ⟨⟨hgood, h.1.rafts, fun i' hi' => ?_, h.1.live⟩, h.2⟩
    by_cases hi : i' = i
    · exact hi ▸ h.2
    · exact h.1.connected i' (by simpa [hi] using hi')
  have hout : Spec T ((List.finRange n).map (.enableOutgoing i)) T :=
    Triple.map (fun _ => T) fun _ j =>
      spec_enable (fun c h hsome _ g hg => h.owner hsome hg) fun _ _ => enable_switch
  have hin : Spec T ((List.finRange n).map (.enableIncoming i)) T :=
    Triple.map (fun _ => T) fun _ j =>
      spec_enable (fun c h _ hj g hg => h.owner (h.connected j hj) hg) fun _ _ => enable_switch
  exact (hset.cons (hout.append hin)).imp (fun _ h => h) fun _ h => h.1

theorem spec_admin {a : Admin (Nat × Fin n) (Fin n)} (hpre : ∀ c : Config n, c.Pre (.admin a)) :
    Spec Idle [.admin a] Idle := by
  refine Spec.single (fun c h => h.good) (fun c _ => hpre c) fun c c' h hgood hrun => ?_
  cases hsw : c.switch.admin a with
  | error x => simp [Config.run, Config.admin, hsw, Except.map] at hrun
  | ok sw =>
    simp only [Config.run, Config.admin, hsw] at hrun
    cases hrun
    exact h.switch hgood

/-- Every operation of the harness, begun between two others, goes through only good
configurations and ends between two others. -/
theorem spec_commands (op : Op n) :
    Spec (fun c => c.Idle ∧ op.allowed c) op.commands Idle := by
  cases op with
  | connect i => exact spec_connect i
  | disconnect i => exact (spec_disconnect i).imp (fun _ h => h.1) fun _ h => h.1
  | crash1 i => exact (spec_crash1 i).imp (fun _ h => h.1) fun _ h => h.1.idle h.2
  | start1 i => exact (spec_start1 i).imp (fun _ h => h.1) fun _ h => h
  | setunreliable unrel =>
    exact (spec_admin (a := .reliable !unrel) fun _ => trivial).imp (fun _ h => h.1) fun _ h => h
  | setlongreordering longrel =>
    exact (spec_admin (a := .longReordering longrel) fun _ => trivial).imp (fun _ h => h.1)
      fun _ h => h
  | cleanup =>
    exact (spec_admin (a := .cleanup) fun _ => trivial).imp (fun _ h => h.1) fun _ h => h

theorem idle_init : (Config.init : Config n).Idle where
  good := {
    served := by simp [Config.init, Switch.make]
    enabled := by simp [Config.init, Switch.make]
    connections := by simp [Config.init, Switch.make]
    ends := by simp [Config.init]
    persisters := ⟨by simp [Config.init], by simp [Config.init], by simp [Config.init],
      by simp [Config.init], by simp [Config.init]⟩ }
  rafts := by simp [Config.init]
  connected := by simp [Config.init]
  live := by simp [Config.init]

end MrAndRaft.Labrpc.Config
