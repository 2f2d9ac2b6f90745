import MrAndRaft.Rpc.Refinement

/-! Crashed instances run on: the harness only cuts them off and takes their persister.  What each
piece of a program's code keeps holds of them as well. -/

namespace MrAndRaft.Labrpc

variable {n : Nat} {σ Q R D A : Type}

/-- Every piece of code keeps `P`, given `C` of the request it handles or gets an answer to; what it
saves has `S` and what it sends has `C`. -/
structure Keeps (b : Remote.Behaviour (Fin n) σ Q R D A) (P : Fin n → σ → Prop)
    (S : Fin n → D → Prop) (C : Q → Prop) : Prop where
  boot : ∀ i saved, (∀ d, saved = some d → S i d) → P i (b.boot i saved)
  act : ∀ i st a st' saved reqs, P i st → b.act i st a = some (st', saved, reqs) →
    P i st' ∧ (∀ d, saved = some d → S i d) ∧ ∀ x ∈ reqs, C x.2
  handle : ∀ i st q st' r, P i st → C q → b.handle i st q = some (st', r) → P i st'
  release : ∀ i st q r st', P i st → b.release i st q r = some st' → P i st'
  accept : ∀ i st j q r st' reqs, P i st → C q → b.accept i st j q r = some (st', reqs) →
    P i st' ∧ ∀ x ∈ reqs, C x.2

namespace World

variable {b : Remote.Behaviour (Fin n) σ Q R D A} {wiring : Wiring Q} {wire : Wire Q R}
  {P : Fin n → σ → Prop} {S : Fin n → D → Prop} {C : Q → Prop} {w w' : World n σ Q R D}

structure Kept (P : Fin n → σ → Prop) (S : Fin n → D → Prop) (C : Q → Prop) (w : World n σ Q R D) :
    Prop where
  states : ∀ (j : Nat) (inst : Instance n) (st : σ), w.config.instances[j]? = some inst →
    w.states[j]? = some st → P inst.name st
  stored : ∀ i d, w.savedState i = some d → S i d
  requests : ∀ c ∈ w.traffic.calls, C c.args

theorem states_set {states : List σ} {instances : List (Instance n)} {i : Nat} {inst : Instance n}
    {st : σ} (hinst : instances[i]? = some inst) (hst : P inst.name st)
    (h : ∀ (j : Nat) (inst : Instance n) (st : σ), instances[j]? = some inst →
      states[j]? = some st → P inst.name st) :
    ∀ (j : Nat) (inst : Instance n) (st' : σ), instances[j]? = some inst →
      (states.set i st)[j]? = some st' → P inst.name st' := by
  intro j inst' st' hinst' hst'
  rcases Position.of_set hst' with ⟨rfl, rfl⟩ | ⟨-, hst'⟩
  · cases hinst.symm.trans hinst'
    exact hst
  · exact h j inst' st' hinst' hst'

theorem requests_move {sw : Switch (Nat × Fin n) (Fin n)} {t t' : Traffic (Nat × Fin n) (Fin n) Q R}
    {k : Nat} {m : Move R} (h : ∀ c ∈ t.calls, C c.args) (hm : t.move wire sw k m = .ok t') :
    ∀ c ∈ t'.calls, C c.args := by
  obtain ⟨c, c', hc, hcm, rfl⟩ := Traffic.move_ok hm
  intro c₁ hc₁
  rcases List.mem_or_eq_of_mem_set hc₁ with hmem | rfl
  · exact h c₁ hmem
  · rw [(Pending.move_ok hcm).2.2.1]
    exact h c (List.mem_of_getElem? hc)

theorem requests_callAll {t : Traffic (Nat × Fin n) (Fin n) Q R} (ends : Nat)
    {reqs : List (Fin n × Q)} (h : ∀ c ∈ t.calls, C c.args) (hreqs : ∀ x ∈ reqs, C x.2) :
    ∀ c ∈ (callAll wiring t ends reqs).calls, C c.args := by
  intro c hc
  rcases List.mem_append.mp hc with hc | hc
  · exact h c hc
  · obtain ⟨x, hx, rfl⟩ := List.mem_map.mp hc
    exact hreqs x hx

theorem Kept.command (h : w.Kept P S C) (hkeeps : Keeps b P S C) (hsane : w.Sane) {cmd : Command n}
    {config : Config n} {w₁ : World n σ Q R D} {rest : List (Command n)}
    (hran : Ran b wiring w cmd config w₁) : Kept P S C { w₁ with config, todo := rest } := by
  cases hran with
  | frame hinst hsaved hpers =>
    refine ⟨?_, fun i d hd => h.stored i d ?_, h.requests⟩
    · intro j inst st hj hst
      simp only [hinst] at hj
      exact h.states j inst st hj hst
    · simpa [savedState, hsaved] using hd
  | crash | renew =>
    refine ⟨h.states, fun i d hd => h.stored i d ?_, h.requests⟩
    rw [← hd]
    exact (read_newSaved hsane.good hsane.contents _ i).symm
  | @make i p g hp hg =>
    refine ⟨fun j inst st hj hst => ?_, h.stored, h.requests⟩
    rcases Position.of_concat hj with hj | ⟨rfl, rfl⟩
    · refine h.states j inst st hj ?_
      rwa [List.getElem?_append_left (hsane.states ▸ (List.getElem?_eq_some_iff.mp hj).1)] at hst
    · rw [← hsane.states, List.getElem?_concat_length] at hst
      rw [← Option.some.inj hst]
      exact hkeeps.boot i _ (h.stored i)

theorem Kept.step (h : w.Kept P S C) (hkeeps : Keeps b P S C) (hsane : w.Sane) {ev : Event n A R}
    (hstep : Stepped b wiring wire w ev w') : w'.Kept P S C := by
  cases hstep with
  | op | stop => exact ⟨h.states, h.stored, h.requests⟩
  | command htodo hrun => exact h.command hkeeps hsane (ran hrun)
  | net hint hm => exact ⟨h.states, h.stored, requests_move h.requests hm⟩
  | act hinst hst hact =>
    obtain ⟨hP, hS, hC⟩ := hkeeps.act _ _ _ _ _ _ (h.states _ _ _ hinst hst) hact
    refine ⟨states_set hinst hP h.states, fun i d hd => ?_, requests_callAll _ h.requests hC⟩
    rcases read_saveRaftState hsane.good hinst hd with hd | ⟨rfl, hsaved⟩
    · exact h.stored i d hd
    · exact hS d hsaved
  | handle hc hrunning hinst hst hhandle hm =>
    have hP := hkeeps.handle _ _ _ _ _ (h.states _ _ _ hinst hst)
      (h.requests _ (List.mem_of_getElem? hc)) hhandle
    exact ⟨states_set hinst hP h.states, h.stored, requests_move h.requests hm⟩
  | release hc hreplied hinst hst hrelease hm =>
    have hP := hkeeps.release _ _ _ _ _ (h.states _ _ _ hinst hst) hrelease
    exact ⟨states_set hinst hP h.states, h.stored, requests_move h.requests hm⟩
  | accept hc hret hinst hst hends hacc haccept =>
    obtain ⟨hP, hC⟩ := hkeeps.accept _ _ _ _ _ _ _ (h.states _ _ _ hinst hst)
      (h.requests _ (List.mem_of_getElem? hc)) haccept
    exact ⟨states_set hinst hP h.states, h.stored, requests_callAll _ h.requests hC⟩

theorem Run.kept {ω : List (World n σ Q R D)} (hrun : Run b wiring wire ω) (hkeeps : Keeps b P S C) :
    ∀ w ∈ ω, w.Kept P S C := by
  have hboth : ∀ w ∈ ω, w.Sane ∧ w.Kept P S C := by
    refine History.Run.forall_mem hrun ⟨sane_init, ?_⟩ ?_
    · exact ⟨by simp [World.init, Config.init], by simp [World.init, Config.init, savedState],
        by simp [World.init, Traffic.make]⟩
    · rintro w ev w' ⟨hsane, hkept⟩ hstep
      have hstepped := step_some hstep
      exact ⟨hsane.step hstepped, hkept.step hkeeps hsane hstepped⟩
  exact fun w hw => (hboth w hw).2

end World

end MrAndRaft.Labrpc
