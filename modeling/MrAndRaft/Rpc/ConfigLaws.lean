import MrAndRaft.Lib.Prefix
import MrAndRaft.Rpc.Config

/-! At every moment of every operation, also halfway through a crash or a start, only the
instance that owns the current persister of its peer can be reached or can reach anyone. -/

namespace MrAndRaft.Labrpc.Config

variable {n : Nat} {c c' : Config n} {i : Fin n}

/-- The instance whose persister the next one will be made from. -/
def Live (c : Config n) (inst : Instance n) : Prop :=
  c.saved inst.name = some inst.persister

structure Persisters (saved : Fin n → Option Nat) (made : Nat) (instances : List (Instance n)) :
    Prop where
  saved_lt : ∀ i p, saved i = some p → p < made
  saved_inj : ∀ i i' p, saved i = some p → saved i' = some p → i = i'
  owned : ∀ (j : Nat) (inst : Instance n), instances[j]? = some inst → inst.persister < made
  distinct : ∀ (j j' : Nat) (inst inst' : Instance n), instances[j]? = some inst →
    instances[j']? = some inst' → inst.persister = inst'.persister → j = j'
  belongs : ∀ (i : Fin n) (j : Nat) (inst : Instance n), instances[j]? = some inst →
    saved i = some inst.persister → inst.name = i

structure Good (c : Config n) : Prop where
  served : ∀ i j, c.switch.servers i = some j →
    ∃ inst, c.instances[j]? = some inst ∧ inst.name = i ∧ c.Live inst
  enabled : ∀ g t, c.switch.enabled (g, t) → ∃ inst, c.instances[g]? = some inst ∧ c.Live inst
  connections : ∀ g t i, c.switch.connections (g, t) = some i → i = t
  ends : ∀ (j : Nat) (inst : Instance n), c.instances[j]? = some inst → inst.ends = j
  persisters : Persisters c.saved c.persisters c.instances

def Gone (c : Config n) (i : Fin n) : Prop :=
  ∀ (j : Nat) (inst : Instance n), c.instances[j]? = some inst → inst.name = i → ¬ c.Live inst

def Silent (c : Config n) (i : Fin n) : Prop :=
  ∀ (g : Nat) (t : Fin n) (inst : Instance n), c.switch.enabled (g, t) →
    c.instances[g]? = some inst → inst.name ≠ i

def Pre (c : Config n) : Command n → Prop
  | .enableOutgoing i j => c.connected j → ∀ g, c.endnames i = some g →
    ∃ inst, c.instances[g]? = some inst ∧ c.Live inst
  | .enableIncoming _ j => c.connected j → ∀ g, c.endnames j = some g →
    ∃ inst, c.instances[g]? = some inst ∧ c.Live inst
  | .copySaved i => c.switch.servers i = none ∧ c.Silent i
  | .renewSaved i => c.Gone i
  | .makePersister i => c.Gone i
  | .make i => c.endnames i = some c.instances.length ∧
    ∀ (j : Nat) (inst : Instance n), c.instances[j]? = some inst → c.saved i ≠ some inst.persister
  | .addServer i => ∀ j, c.rafts i = some j →
    ∃ inst, c.instances[j]? = some inst ∧ inst.name = i ∧ c.Live inst
  | .admin (.reliable _) => True
  | .admin (.longReordering _) => True
  | .admin .cleanup => True
  | .admin _ => False
  | _ => True

theorem Good.live_unique (h : c.Good) {j j' : Nat} {inst inst' : Instance n}
    (hj : c.instances[j]? = some inst) (hj' : c.instances[j']? = some inst')
    (hname : inst.name = inst'.name) (hlive : c.Live inst) (hlive' : c.Live inst') : j = j' := by
  refine h.persisters.distinct j j' inst inst' hj hj' (Option.some.inj ?_)
  rw [← hlive, ← hlive', hname]

theorem Good.enable (h : c.Good) {e : Nat × Fin n} {b : Bool}
    (hlive : b → ∃ inst, c.instances[e.1]? = some inst ∧ c.Live inst) :
    Good { c with switch := { c.switch with enabled := Function.update c.switch.enabled e b } } := by
  refine ⟨h.served, fun g t hen => ?_, h.connections, h.ends, h.persisters⟩
  by_cases he : (g, t) = e
  · subst he
    exact hlive (by simpa using hen)
  · exact h.enabled g t (by simpa [he] using hen)

theorem Good.setServer (h : c.Good) {rf : Option Nat}
    (hlive : ∀ j, rf = some j → ∃ inst, c.instances[j]? = some inst ∧ inst.name = i ∧ c.Live inst) :
    Good { c with switch := { c.switch with servers := Function.update c.switch.servers i rf } } := by
  refine ⟨fun i' j hj => ?_, h.enabled, h.connections, h.ends, h.persisters⟩
  by_cases hi : i' = i
  · subst hi
    exact hlive j (by simpa using hj)
  · exact h.served i' j (by simpa [hi] using hj)

theorem live_newSaved {inst : Instance n} (hne : inst.name ≠ i) :
    (c.newSaved i).Live inst ↔ c.Live inst := by
  simp [Live, newSaved, hne]

theorem Good.gone_newSaved (h : c.Good) : (c.newSaved i).Gone i := by
  rintro j inst hj rfl hlive
  have hp := h.persisters.owned j inst hj
  have : c.persisters = inst.persister := by simpa [Live, newSaved] using hlive
  omega

theorem eq_or_of_update {saved : Fin n → Option Nat} {made : Nat} {i' : Fin n} {p : Nat}
    (hp : Function.update saved i (some made) i' = some p) :
    (i' = i ∧ p = made) ∨ saved i' = some p := by
  by_cases hi : i' = i
  · subst hi
    exact .inl ⟨rfl, by simpa using hp.symm⟩
  · exact .inr (by simpa [hi] using hp)

theorem Persisters.update {saved : Fin n → Option Nat} {made : Nat} {instances : List (Instance n)}
    (h : Persisters saved made instances) (i : Fin n) :
    Persisters (Function.update saved i (some made)) (made + 1) instances where
  saved_lt i' p hp := by
    rcases eq_or_of_update hp with ⟨-, rfl⟩ | hp
    · exact Nat.lt_succ_self _
    · exact Nat.lt_succ_of_lt (h.saved_lt i' p hp)
  saved_inj i₁ i₂ p h₁ h₂ := by
    rcases eq_or_of_update h₁ with ⟨rfl, rfl⟩ | hold₁ <;>
      rcases eq_or_of_update h₂ with ⟨rfl, heq⟩ | hold₂
    · rfl
    · exact absurd (h.saved_lt _ _ hold₂) (Nat.lt_irrefl _)
    · exact absurd (heq ▸ h.saved_lt _ _ hold₁) (Nat.lt_irrefl _)
    · exact h.saved_inj i₁ i₂ p hold₁ hold₂
  owned j inst hj := Nat.lt_succ_of_lt (h.owned j inst hj)
  distinct := h.distinct
  belongs i' j inst hj hp := by
    rcases eq_or_of_update hp with ⟨-, heq⟩ | hp
    · exact absurd (heq ▸ h.owned j inst hj) (Nat.lt_irrefl _)
    · exact h.belongs i' j inst hj hp

theorem Good.newSaved (h : c.Good) (hserver : c.switch.servers i = none) (hsilent : c.Silent i) :
    (c.newSaved i).Good where
  served i' j hj := by
    obtain ⟨inst, hinst, rfl, hlive⟩ := h.served i' j hj
    have hne : inst.name ≠ i := by
      rintro rfl
      exact absurd (hserver.symm.trans hj) (by simp)
    exact ⟨inst, hinst, rfl, (live_newSaved hne).mpr hlive⟩
  enabled g t hen := by
    obtain ⟨inst, hinst, hlive⟩ := h.enabled g t hen
    exact ⟨inst, hinst, (live_newSaved (hsilent g t inst hen hinst)).mpr hlive⟩
  connections := h.connections
  ends := h.ends
  persisters := h.persisters.update i

theorem Good.gone_server (h : c.Good) (hgone : c.Gone i) : c.switch.servers i = none := by
  cases hs : c.switch.servers i with
  | none => rfl
  | some j =>
    obtain ⟨inst, hinst, hname, hlive⟩ := h.served i j hs
    exact absurd hlive (hgone j inst hinst hname)

theorem Good.gone_silent (h : c.Good) (hgone : c.Gone i) : c.Silent i := by
  intro g t inst hen hinst hname
  obtain ⟨inst', hinst', hlive⟩ := h.enabled g t hen
  cases hinst.symm.trans hinst'
  exact hgone g inst hinst hname hlive

theorem Good.newSaved_of_gone (h : c.Good) (hgone : c.Gone i) : (c.newSaved i).Good :=
  h.newSaved (h.gone_server hgone) (h.gone_silent hgone)

theorem getElem?_instances {inst new : Instance n} {j : Nat} (h : c.instances[j]? = some inst) :
    (c.instances ++ [new])[j]? = some inst := by
  rw [List.getElem?_append_left (List.getElem?_eq_some_iff.mp h).1, h]

theorem Persisters.concat {saved : Fin n → Option Nat} {made p g : Nat}
    {instances : List (Instance n)} (h : Persisters saved made instances) (hp : saved i = some p)
    (hfresh : ∀ (j : Nat) (inst : Instance n), instances[j]? = some inst →
      saved i ≠ some inst.persister) : Persisters saved made (instances ++ [⟨i, p, g⟩]) where
  saved_lt := h.saved_lt
  saved_inj := h.saved_inj
  owned j inst hj := by
    rcases Position.of_concat hj with hj | ⟨rfl, rfl⟩
    · exact h.owned j inst hj
    · exact h.saved_lt i p hp
  distinct j j' inst inst' hj hj' heq := by
    rcases Position.of_concat hj with hj | ⟨rfl, rfl⟩ <;>
      rcases Position.of_concat hj' with hj' | ⟨rfl, rfl⟩
    · exact h.distinct j j' inst inst' hj hj' heq
    · exact absurd (hp.trans (congrArg some heq.symm)) (hfresh j inst hj)
    · exact absurd (hp.trans (congrArg some heq)) (hfresh j' inst' hj')
    · rfl
  belongs i' j inst hj hsaved := by
    rcases Position.of_concat hj with hj | ⟨rfl, rfl⟩
    · exact h.belongs i' j inst hj hsaved
    · exact h.saved_inj i i' p hp hsaved

theorem Good.make (h : c.Good) {p : Nat} (hp : c.saved i = some p)
    (hfresh : ∀ (j : Nat) (inst : Instance n), c.instances[j]? = some inst →
      c.saved i ≠ some inst.persister) :
    Good { c with
      rafts := Function.update c.rafts i (some c.instances.length)
      instances := c.instances ++ [⟨i, p, c.instances.length⟩] } where
  served i' j hj := by
    obtain ⟨inst, hinst, hname, hlive⟩ := h.served i' j hj
    exact ⟨inst, getElem?_instances hinst, hname, hlive⟩
  enabled g t hen := by
    obtain ⟨inst, hinst, hlive⟩ := h.enabled g t hen
    exact ⟨inst, getElem?_instances hinst, hlive⟩
  connections := h.connections
  ends j inst hj := by
    rcases Position.of_concat hj with hj | ⟨rfl, rfl⟩
    · exact h.ends j inst hj
    · rfl
  persisters := h.persisters.concat hp hfresh

theorem Good.makeEnd (h : c.Good) {e : Nat × Fin n} :
    Good { c with switch := { c.switch with
      ends := Function.update c.switch.ends e true
      enabled := Function.update c.switch.enabled e false
      connections := Function.update c.switch.connections e none } } := by
  have henable := h.enable (e := e) (b := false) (by simp)
  refine ⟨h.served, henable.enabled, fun g t x hx => ?_, h.ends, h.persisters⟩
  by_cases he : (g, t) = e
  · simp [he] at hx
  · exact h.connections g t x (by simpa [he] using hx)

theorem Good.connectEnd (h : c.Good) {g : Nat} {j : Fin n} :
    Good { c with switch := { c.switch with
      connections := Function.update c.switch.connections (g, j) (some j) } } := by
  refine ⟨h.served, h.enabled, fun g' t x hx => ?_, h.ends, h.persisters⟩
  by_cases he : (g', t) = (g, j)
  · cases he
    simpa using hx.symm
  · exact h.connections g' t x (by simpa [he] using hx)

theorem endname_bind {α : Type} {j : Fin n} {f : Nat × Fin n → Except Fault α} {a : α}
    (h : (c.endname i j).bind f = .ok a) : ∃ g, c.endnames i = some g ∧ f (g, j) = .ok a := by
  unfold endname at h
  split at h
  · exact ⟨_, ‹_›, h⟩
  · cases h

theorem Good.run (h : c.Good) {cmd : Command n} (hpre : c.Pre cmd) (hrun : c.run cmd = .ok c') :
    c'.Good := by
  cases cmd with
  | setConnected i yes =>
    cases hrun
    exact ⟨h.served, h.enabled, h.connections, h.ends, h.persisters⟩
  | enableOutgoing i j =>
    simp only [Config.run] at hrun
    split at hrun
    · obtain ⟨g, hg, hrun⟩ := endname_bind hrun
      cases hrun
      exact h.enable fun _ => hpre ‹_› g hg
    · cases hrun
      exact h
  | enableIncoming i j =>
    simp only [Config.run] at hrun
    split at hrun
    · obtain ⟨g, hg, hrun⟩ := endname_bind hrun
      cases hrun
      exact h.enable fun _ => hpre ‹_› g hg
    · cases hrun
      exact h
  | disableOutgoing i j =>
    simp only [Config.run] at hrun
    split at hrun <;> cases hrun
    · exact h.enable (by simp)
    · exact h
  | disableIncoming i j =>
    simp only [Config.run] at hrun
    split at hrun <;> cases hrun
    · exact h.enable (by simp)
    · exact h
  | deleteServer i =>
    cases hrun
    exact h.setServer (by simp)
  | copySaved i =>
    cases hrun
    split
    · exact h
    · exact h.newSaved hpre.1 hpre.2
  | kill i =>
    cases hrun
    exact ⟨h.served, h.enabled, h.connections, h.ends, h.persisters⟩
  | renewSaved i =>
    cases hrun
    split
    · exact h
    · exact h.newSaved_of_gone hpre
  | drawEndnames i =>
    cases hrun
    exact ⟨h.served, h.enabled, h.connections, h.ends, h.persisters⟩
  | makeEnd i j =>
    obtain ⟨g, hg, hrun⟩ := endname_bind hrun
    simp only [Config.admin, Switch.admin] at hrun
    split at hrun <;> cases hrun
    exact h.makeEnd
  | connectEnd i j =>
    obtain ⟨g, hg, hrun⟩ := endname_bind hrun
    cases hrun
    exact h.connectEnd
  | makePersister i =>
    cases hrun
    exact h.newSaved_of_gone hpre
  | make i =>
    simp only [Config.run] at hrun
    split at hrun <;> cases hrun
    rename_i p g hp hg
    obtain rfl : g = c.instances.length := Option.some.inj (hg.symm.trans hpre.1)
    exact h.make hp hpre.2
  | addServer i =>
    simp only [Config.run] at hrun
    split at hrun <;> cases hrun
    exact h.setServer fun j hj => hpre j (by simp_all)
  | admin a =>
    cases a with
    | reliable | longReordering =>
      cases hrun
      exact ⟨h.served, h.enabled, h.connections, h.ends, h.persisters⟩
    | cleanup =>
      simp only [Config.run, Config.admin, Switch.admin] at hrun
      split at hrun <;> cases hrun
      exact ⟨h.served, h.enabled, h.connections, h.ends, h.persisters⟩
    | _ => exact hpre.elim

end MrAndRaft.Labrpc.Config
